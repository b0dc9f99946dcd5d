import SchemaDump.Proofs.Definition.CommentedBody
/- Bodies with a place for one more definition. -/
namespace SchemaDump

/-- What stands in a body around one of its definitions. -/
structure BodyContext where
  above : List Entry
  comments : List Comment
  margin : Margin
  below : List Entry
  lastComments : List Comment
  lastMargin : Margin

namespace BodyContext

variable (b : BodyContext)

def fill (definition : Text) : Body where
  entries := b.above ++ ⟨b.comments, b.margin, definition⟩ :: b.below
  comments := b.lastComments
  margin := b.lastMargin

def definitionsAbove : List Text := b.above.map (·.definition)

def definitionsBelow : List Text := b.below.map (·.definition)

def allComments : List Comment :=
  (b.above.flatMap (·.comments) ++ (b.comments ++ b.below.flatMap (·.comments))) ++ b.lastComments

theorem definitions_fill (definition : Text) :
    (b.fill definition).definitions = b.definitionsAbove ++ definition :: b.definitionsBelow := by
  simp [Body.definitions, fill, definitionsAbove, definitionsBelow]

theorem allComments_fill (definition : Text) : (b.fill definition).allComments = b.allComments := by
  simp [Body.allComments, fill, allComments]

theorem mem_definitions_fill {definition d : Text} (h : d ∈ (b.fill definition).definitions) :
    d = definition ∨ d ∈ b.definitionsAbove ++ b.definitionsBelow := by
  rw [definitions_fill] at h
  simp only [List.mem_append, List.mem_cons] at h ⊢
  tauto

end BodyContext

end SchemaDump
