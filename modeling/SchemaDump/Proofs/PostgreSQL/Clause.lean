import Mathlib.Data.List.Sublists
import SchemaDump.Proofs.Definition.TopLevel
import SchemaDump.Proofs.PostgreSQL.PlainText
/- Columns as they are written: a name, a type and clauses in any order, each kind of them at most once. What
stands in the parentheses of `CHECK` or in a literal may be any text that closes what it opens. -/
namespace SchemaDump.PostgreSQL
open SqlPattern Pattern

/-- A text on one line with closed literals and balanced parentheses. -/
inductive Expression
  | done
  | plain (text : Text) (chars : ∀ c ∈ text, c ≠ '\'' ∧ c ≠ '(' ∧ c ≠ ')' ∧ c ≠ '\n') (rest : Expression)
  | literal (content : Content) (rest : Expression)
  | group (inner rest : Expression)

def Expression.text : Expression → Text
  | done => []
  | plain text _ rest => text ++ rest.text
  | literal content rest => content.quoted ++ rest.text
  | group inner rest => '(' :: (inner.text ++ ')' :: rest.text)

/-- A literal. A quote in it is written twice, which closes one pair of quotes and opens the next. -/
structure QuotedText where
  first : Content
  more : List Content

namespace QuotedText

variable (q : QuotedText)

def rest : Text := q.first.text ++ '\'' :: q.more.flatMap (·.quoted)

def text : Text := '\'' :: q.rest

def content : Text := q.first.text ++ q.more.flatMap fun c => '\'' :: '\'' :: c.text

end QuotedText

def markWords : List String := ["NOT", "PRIMARY", "REFERENCES", "CONSTRAINT"]

/-- A value without its casts: a literal, a word such as `NULL`, or an expression without blanks, such as a number
or the call of a function. -/
inductive ValueBody
  | literal (text : QuotedText)
  | word (word : Word) (plain : word.isOneOf markWords = false)
  | unspaced (expression : Expression) (nonempty : expression.text ≠ [])
      (solid : ∀ c ∈ expression.text, isBlank c = false)
      (ends : ∀ c ∈ expression.text.getLast?, c.isDigit ∨ c = '.' ∨ c = ')')

namespace ValueBody

/-- A value up to the opening quote of its literal, if it has one. -/
def head : ValueBody → Text
  | literal _ => ['\'']
  | word w _ => w.text
  | unspaced e _ _ _ => e.text

def opaqueText : ValueBody → Text
  | literal q => q.rest
  | _ => []

end ValueBody

/-- The value of a default. -/
structure Value where
  body : ValueBody
  casts : List TypeText

namespace Value

def castText (type : TypeText) : Text := ':' :: ':' :: type.text

def tail (v : Value) : Text := v.casts.flatMap castText

def text (v : Value) : Text := v.body.head ++ (v.body.opaqueText ++ v.tail)

end Value

inductive KeyEvent
  | delete
  | update

inductive KeyOutcome
  | cascade
  | restrict
  | noAction
  | setNull

/-- What is to happen to a key along with the row that it refers to. -/
structure KeyAction where
  event : KeyEvent
  outcome : KeyOutcome

def KeyEvent.word : KeyEvent → String
  | delete => "DELETE"
  | update => "UPDATE"

def KeyOutcome.words : KeyOutcome → List String
  | cascade => ["CASCADE"]
  | restrict => ["RESTRICT"]
  | noAction => ["NO", "ACTION"]
  | setNull => ["SET", "NULL"]

def KeyAction.text (a : KeyAction) : Text :=
  ' ' :: ("ON".toList ++ ' ' :: (a.event.word.toList ++ ' ' :: spacedWords a.outcome.words))

/-- A column as a reference lists it. A comma would end it there, and a parenthesis the list. -/
structure ListedName where
  name : ColumnName
  chars : ∀ c ∈ name.text, c ≠ ',' ∧ c ≠ ')' ∧ c ≠ '\n'

def ListedName.string (n : ListedName) : String := .ofList n.name.content

/-- The column that a reference lists most often. -/
def ListedName.rowId : ListedName := ⟨.bare ⟨"id".toList, by decide, by decide⟩, by decide⟩

/-- A reference that is declared on a column. -/
structure DeclaredReference where
  target : Spelling
  oneLine : '\n' ∉ target.text
  spaced : Bool
  first : ListedName
  more : List ListedName
  actions : List KeyAction

namespace DeclaredReference

variable (r : DeclaredReference)

def list : Text := commaJoin r.spaced ((r.first :: r.more).map (·.name.text))

/-- The reference up to the parenthesis that closes its columns. -/
def front : Text := ' ' :: ("REFERENCES".toList ++ ' ' :: (r.target.text ++ '(' :: r.list))

def text : Text := (r.front ++ [')']) ++ r.actions.flatMap (·.text)

end DeclaredReference

inductive Clause
  | notNull
  | primaryKey
  | references (reference : DeclaredReference)
  | check (expression : Expression)
  | default (value : Value)

inductive ClauseKind
  | mark (kind : MarkKind)
  | check
  | default
  deriving DecidableEq

namespace Clause

def kind : Clause → ClauseKind
  | notNull => .mark .notNull
  | primaryKey => .mark .primaryKey
  | references _ => .mark .reference
  | check _ => .check
  | default _ => .default

/-- A clause up to the text in it that may say anything. -/
def head : Clause → Text
  | notNull => Mark.notNull.text
  | primaryKey => Mark.primaryKey.text
  | references r => r.text
  | check _ => ' ' :: ("CHECK".toList ++ [' ', '('])
  | default v => ' ' :: ("DEFAULT".toList ++ ' ' :: v.body.head)

/-- The text in a clause that may say anything, up to the mark that closes it. -/
def opaqueText : Clause → Text
  | check e => e.text ++ [')']
  | default v => v.body.opaqueText
  | _ => []

def tail : Clause → Text
  | default v => v.tail
  | _ => []

def text (c : Clause) : Text := c.head ++ (c.opaqueText ++ c.tail)

def reference? : Clause → Option DeclaredReference
  | references r => some r
  | _ => none

end Clause

def clauseText (clauses : List Clause) : Text := clauses.flatMap (·.text)

theorem MarkKind.forall_iff {P : MarkKind → Prop} :
    (∀ kind, P kind) ↔ P .notNull ∧ P .primaryKey ∧ P .reference :=
  ⟨fun h => ⟨h _, h _, h _⟩, fun ⟨hnull, hprimary, href⟩ kind => by cases kind <;> assumption⟩

instance (P : MarkKind → Prop) [DecidablePred P] : Decidable (∀ kind, P kind) :=
  decidable_of_iff _ MarkKind.forall_iff.symm

/-- Whichever of the clauses behind them are left, no mark that is read in the text of a clause that may say
anything goes on behind this text. -/
def Settled : List Clause → Prop
  | [] => True
  | c :: clauses => (∀ rest ∈ clauses.sublists, ∀ kind : MarkKind,
      kind.marker.ReadsWithin (lastOf none c.head) c.opaqueText (c.tail ++ clauseText rest)) ∧ Settled clauses

instance decidableSettled : (clauses : List Clause) → Decidable (Settled clauses)
  | [] => inferInstanceAs (Decidable True)
  | _ :: clauses =>
      have := decidableSettled clauses
      inferInstanceAs (Decidable (_ ∧ _))

/-- A line that defines a column. -/
structure ClauseLine where
  name : ColumnName
  oneLine : '\n' ∉ name.text
  type : TypeText
  clauses : List Clause
  distinct : (clauses.map (·.kind)).Nodup

namespace ClauseLine

variable (c : ClauseLine)

def text : Text := c.name.text ++ ' ' :: (c.type.text ++ clauseText c.clauses)

def front : List Clause := c.clauses.takeWhile (·.kind ≠ .default)

def defaulted : List Clause := c.clauses.dropWhile (·.kind ≠ .default)

/-- The checks among clauses: they are no marks, so the column keeps them where they stand. -/
def checkText (clauses : List Clause) : Text := clauseText (clauses.filter (·.kind = .check))

/-- The default as it is written, with the checks behind it. -/
def defaultText? : Option Text :=
  match c.defaulted with
  | .default v :: back => some (v.text ++ checkText back)
  | _ => none

def string : String := .ofList c.name.content

/-- The column that a line defines: a mark counts wherever it stands, and the key leads to the first column that
the reference lists. -/
def column : Column where
  name := c.string
  declaredType := .ofList (c.type.text ++ checkText c.front)
  isPrimaryKey := (c.clauses.map (·.kind)).contains (.mark .primaryKey)
  isNullable := !(c.clauses.map (·.kind)).contains (.mark .notNull)
  defaultValue := c.defaultText?.map fun raw => .ofList (DefaultValue.clean true raw)
  foreignKey := (c.clauses.findSome? (·.reference?)).map fun r =>
    ⟨c.string, .ofList (Spelling.shortName r.target.address), r.first.string⟩

/-- A line that is read clause by clause: in front of the default no `DEFAULT` stands between blanks, be it in an
expression or a name, and the texts that may say anything are settled. -/
structure Readable : Prop where
  plain : defaultOpening.occursIn (clauseText c.front ++ [' ']) = false
  front : Settled c.front
  defaulted : Settled c.defaulted

end ClauseLine

end SchemaDump.PostgreSQL
