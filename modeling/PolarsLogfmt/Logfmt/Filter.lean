import PolarsLogfmt.Lazy.LineReader
import PolarsLogfmt.Logfmt.Value
import PolarsLogfmt.Misc.SplitOnce

/-!
# Filters

`filter.rs`: the text of a filter, and what it says of a row. The text is a list of characters
here, its parts are the bytes of the row's keys and values.
-/

namespace PolarsLogfmt

open SplitOnce (splitOnce trim)

inductive FilterSpec where
  | always
  | eq (key value : Bytes)
  | notEq (key value : Bytes)
  | contains (key value : Bytes)
  | notContains (key value : Bytes)
deriving DecidableEq

/-- The operators, in the order they are tried. -/
inductive FilterOp where
  | notContains
  | contains
  | notEq
  | eq
deriving DecidableEq

namespace FilterOp

def text : FilterOp → List Char
  | notContains => ['!', '~']
  | contains => ['~']
  | notEq => ['!', '=']
  | eq => ['=']

def all : List FilterOp := [notContains, contains, notEq, eq]

def filter : FilterOp → Bytes → Bytes → FilterSpec
  | notContains => .notContains
  | contains => .contains
  | notEq => .notEq
  | eq => .eq

theorem filter_injective {op op' : FilterOp} {key value key' value' : Bytes}
    (h : op.filter key value = op'.filter key' value') : op = op' := by
  cases op <;> cases op' <;> first | rfl | cases h

end FilterOp

/-- `anyhow!("invalid filter spec: {spec}")`. -/
def invalidFilterSpec (spec : List Char) : Bytes :=
  Utf8.ofString "invalid filter spec: " ++ Utf8.encode spec

/-- `parse_filter_spec`. -/
def parseFilterSpec : Option (List Char) → Except Bytes FilterSpec
  | none => .ok .always
  | some spec =>
      let spec := trim isWhitespace spec
      if spec = [] then .ok .always
      else
        -- the first operator that occurs anywhere in the text
        match FilterOp.all.findSome? fun op => (splitOnce op.text spec).map (op, ·) with
        | some (op, key, value) =>
            let key := trim isWhitespace key
            let value := trim isWhitespace value
            if key = [] ∨ value = [] then .error (invalidFilterSpec spec)
            else .ok (op.filter (Utf8.encode key) (Utf8.encode value))
        | none => .error (invalidFilterSpec spec)

variable [Crates]

/-- `filter_row`. -/
def filterRow (row : Row) : FilterSpec → Bool
  | .always => true
  | .eq key value => row[key]?.any fun current => current.asString == value
  | .notEq key value => row[key]?.all fun current => current.asString != value
  | .contains key value => row[key]?.any fun current => decide (value <:+: current.asString)
  | .notContains key value => row[key]?.all fun current => !decide (value <:+: current.asString)

end PolarsLogfmt
