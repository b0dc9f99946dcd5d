import SchemaDump.Schema.Basic
/- Keys declared apart from the columns they apply to. -/
namespace SchemaDump

/-- A foreign key over a list of columns, before it is divided among them. -/
structure ForeignKeyList where
  columns : List String
  referencesTable : String
  referencesColumns : List String
  deriving DecidableEq

inductive Constraint
  | primaryKey (columns : List String)
  | foreignKey (key : ForeignKeyList)
  deriving DecidableEq

namespace ForeignKeyList

/-- Pairs columns with targets by position; a column without a named counterpart takes `first`. -/
def pairWith (table first : String) : (columns targets : List String) → List ForeignKey
  | [], _ => []
  | column :: columns, [] => ⟨column, table, first⟩ :: pairWith table first columns []
  | column :: columns, target :: targets =>
      ⟨column, table, if target = "" then first else target⟩ ::
        pairWith table first columns targets

/-- One key for each local column. Nothing can be said without a referenced column. -/
def decompose (key : ForeignKeyList) : List ForeignKey :=
  match key.referencesColumns with
  | [] => []
  | first :: _ => pairWith key.referencesTable first key.columns key.referencesColumns

end ForeignKeyList
end SchemaDump
