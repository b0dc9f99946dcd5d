import SchemaDump.Proofs.Definition.Taking
import SchemaDump.Proofs.PostgreSQL.Clause
/- Columns with notes. A mark of a column may have a name as a constraint, and a column may be said to allow nulls;
both can be noted behind its type and behind its default. A name goes with its mark, unless the mark is `NOT NULL`:
the search for that does not know of names and leaves them where they stand. -/
namespace SchemaDump.PostgreSQL
open SqlPattern Pattern

/-- The words that open what is said about a column. They are reserved, so no bare name is one of them. -/
def noteWords : List String := ["CONSTRAINT", "DEFAULT", "NOT", "NULL", "PRIMARY", "REFERENCES"]

/-- The name of a constraint on a column. -/
inductive MarkName
  | bare (word : Word) (plain : word.isOneOf noteWords = false)
  | quoted (word : Word)

namespace MarkName

variable (n : MarkName)

def identifier : MarkName → Text
  | bare word _ => word.text
  | quoted word => '"' :: (word.text ++ ['"'])

def opening : Text := ' ' :: ("CONSTRAINT".toList ++ [' '])

def text : Text := opening ++ n.identifier

/-- The name where bare nulls are taken off. One in double quotes is a word of its own as well. -/
def rest (bare : Bool) : MarkName → Text
  | quoted word => if bare && word.isOneOf ["NULL"] then opening ++ ['"', '"'] else (quoted word).text
  | n => n.text

end MarkName

/-- A mark on a column. -/
inductive InlineMark
  | notNull
  | primaryKey
  | references (reference : DeclaredReference)

namespace InlineMark

def kind : InlineMark → MarkKind
  | notNull => .notNull
  | primaryKey => .primaryKey
  | references _ => .reference

def clause : InlineMark → Clause
  | notNull => .notNull
  | primaryKey => .primaryKey
  | references r => .references r

def text (m : InlineMark) : Text := m.clause.text

def reference? : InlineMark → Option DeclaredReference
  | references r => some r
  | _ => none

end InlineMark

/-- A name without a mark is what a `NOT NULL` leaves behind. -/
inductive Note
  | null
  | mark (name : Option MarkName) (mark : InlineMark)
  | leftover (name : MarkName)

namespace Note

def nameText (name : Option MarkName) : Text := (name.map (·.text)).getD []

def text : Note → Text
  | null => ' ' :: "NULL".toList
  | mark name m => nameText name ++ m.text
  | leftover n => n.text

def isWritten : Note → Bool
  | leftover _ => false
  | _ => true

def isNull : Note → Bool
  | null => true
  | _ => false

def isOf (k : MarkKind) : Note → Bool
  | mark _ m => m.kind = k
  | _ => false

/-- Whether the note is a `NOT NULL` with a name. -/
def leavesName : Note → Bool
  | mark (some _) .notNull => true
  | _ => false

def reference? : Note → Option DeclaredReference
  | mark _ m => m.reference?
  | _ => none

/-- What is left of a name when its mark is taken off. -/
def leftovers : MarkKind → Option MarkName → List Note
  | .notNull, some n => [leftover n]
  | _, _ => []

/-- What is left of the note when the marks of a kind are taken off. -/
def without (k : MarkKind) : Note → List Note
  | mark name m => if m.kind = k then leftovers k name else [mark name m]
  | note => [note]

/-- What is left of the note when all marks are taken off, and the bare nulls too if they are to be. -/
def rest (bare : Bool) : Note → Text
  | null => if bare then [] else null.text
  | mark (some n) .notNull => n.rest bare
  | mark _ _ => []
  | leftover n => n.rest bare

def unnamed : Note → Note
  | mark _ m => mark none m
  | note => note

end Note

def noteText (notes : List Note) : Text := notes.flatMap (·.text)

def notesWithout (k : MarkKind) (notes : List Note) : List Note := notes.flatMap (·.without k)

def restText (bare : Bool) (notes : List Note) : Text := notes.flatMap (·.rest bare)

/-- The notes that are left when the marks of a kind are searched for: references are searched for first, and
`NOT NULL` last. -/
def notesFor : MarkKind → List Note → List Note
  | .reference, notes => notes
  | .primaryKey, notes => notesWithout .reference notes
  | .notNull, notes => notesWithout .primaryKey (notesWithout .reference notes)

/-- The notes up to the words `NOT NULL` that a line may end with, and whether it does. -/
def capturedNotes (notes : List Note) : List Note × Bool :=
  match notes.getLast? with
  | some (.mark name .notNull) => (notes.dropLast ++ Note.leftovers .notNull name, true)
  | _ => (notes, false)

/-- The value of a default: any text on one line that closes what it opens. -/
structure DefaultText where
  text : Text
  nonempty : text ≠ []
  opens : Stops isBlank text
  endsSolid : EndsSolid text
  oneLine : '\n' ∉ text
  balanced : Balanced text

/-- A default with the notes behind it. -/
structure NotedDefault where
  value : DefaultText
  notes : List Note

namespace NotedDefault

variable (d : NotedDefault)

def text : Text := ' ' :: ("DEFAULT".toList ++ ' ' :: (d.value.text ++ noteText d.notes))

def kept : Text := d.value.text ++ restText false d.notes

/-- A default that is read as what it is: no mark and no `NOT NULL` at the end of the line begins in its value,
unless in a literal or in parentheses, and none that begins in there goes on behind the value. -/
structure Readable : Prop where
  spared : ∀ k : MarkKind, k.marker.Spares d.value.text (noteText (notesFor k (capturedNotes d.notes).1))
  ends : ∀ i < d.value.text.length,
    notNullTail.read? (lastOf none (d.value.text.take i)) (d.value.text.drop i ++ noteText d.notes) = none

instance : Decidable d.Readable := decidable_of_iff (_ ∧ _) ⟨fun ⟨hspared, hends⟩ => ⟨hspared, hends⟩,
  fun h => ⟨h.spared, h.ends⟩⟩

end NotedDefault

/-- A line that defines a column, with at most one reference. -/
structure NotedLine where
  name : ColumnName
  oneLine : '\n' ∉ name.text
  type : TypeText
  front : List Note
  default : Option NotedDefault
  written : ∀ note ∈ front ++ (default.map (·.notes)).getD [], note.isWritten
  single : ((front ++ (default.map (·.notes)).getD []).filterMap (·.reference?)).length ≤ 1

namespace NotedLine

variable (c : NotedLine)

def back : List Note := (c.default.map (·.notes)).getD []

def notes : List Note := c.front ++ c.back

def defaultText : Text := (c.default.map (·.text)).getD []

def head : Text := c.name.text ++ ' ' :: c.type.text

def text : Text := c.head ++ (noteText c.front ++ c.defaultText)

def string : String := .ofList c.name.content

/-- The column that a line defines: a mark counts wherever it stands, and what is left of the notes is kept. -/
def column : Column where
  name := c.string
  declaredType := .ofList (c.type.text ++ restText true c.front)
  isPrimaryKey := c.notes.any (·.isOf .primaryKey)
  isNullable := !c.notes.any (·.isOf .notNull)
  defaultValue := c.default.map fun d => .ofList (DefaultValue.clean true d.kept)
  foreignKey := (c.notes.findSome? (·.reference?)).map fun r =>
    ⟨c.string, .ofList (Spelling.shortName r.target.address), r.first.string⟩

/-- A line that is read note by note: in front of the default no `DEFAULT` stands between blanks, be it in a name, and
the default is read as what it is. -/
structure Readable : Prop where
  plain : defaultOpening.occursIn (noteText c.front ++ c.defaultText.take 1) = false
  default : ∀ d ∈ c.default, d.Readable

instance : Decidable c.Readable := decidable_of_iff (_ ∧ _) ⟨fun ⟨hplain, hdefault⟩ => ⟨hplain, hdefault⟩,
  fun h => ⟨h.plain, h.default⟩⟩

end NotedLine

/-- A way to write notes differently. -/
structure NoteChange where
  apply : List Note → List Note
  nil : apply [] = []
  written : ∀ {notes : List Note}, (∀ note ∈ notes, note.isWritten) → ∀ note ∈ apply notes, note.isWritten
  references : ∀ notes, (apply notes).filterMap (·.reference?) = notes.filterMap (·.reference?)

namespace NoteChange

variable (f : NoteChange)

theorem notes_map (default : Option NotedDefault) :
    ((default.map fun d => { d with notes := f.apply d.notes }).map (·.notes)).getD [] =
      f.apply ((default.map (·.notes)).getD []) := by
  cases default with
  | none => exact f.nil.symm
  | some d => rfl

end NoteChange

namespace NotedLine

variable (c : NotedLine) (f : NoteChange)

/-- A line with its notes written differently, in front of the default and behind it. -/
def changed : NotedLine where
  name := c.name
  oneLine := c.oneLine
  type := c.type
  front := f.apply c.front
  default := c.default.map fun d => { d with notes := f.apply d.notes }
  written := by
    rw [f.notes_map]
    intro note hnote
    rcases List.mem_append.mp hnote with hnote | hnote
    · exact f.written (fun note h => c.written note (List.mem_append_left _ h)) note hnote
    · exact f.written (fun note h => c.written note (List.mem_append_right _ h)) note hnote
  single := by
    have hsingle := c.single
    rw [List.filterMap_append] at hsingle
    rwa [f.notes_map, List.filterMap_append, f.references, f.references]

theorem back_changed : (c.changed f).back = f.apply c.back := f.notes_map c.default

end NotedLine

end SchemaDump.PostgreSQL
