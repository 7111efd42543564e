import PolarsLogfmt.Frame.Table
import PolarsLogfmt.Lazy.RowsToDataframe

/-!
# Time filters

`stream.rs` and `time_filter.rs`: the frame of rows as texts, and the time range of a row and of
a frame. Times are compared by the instant they name, which `instant` gives.
-/

namespace PolarsLogfmt

variable [Crates]

open Crates

/-- The column of a key in `rows_to_dataframe`: the printed values, null where there is none. -/
def printedCell (value : Option ParsedValue) : AnyValue :=
  match value with
  | some value => .string value.asString
  | none => .null

theorem printedCell_fits (value : Option ParsedValue) : (printedCell value).Fits .string := by
  cases value with
  | none => trivial
  | some value => rfl

def printedColumn (rows : List Row) (key : Bytes) : Column :=
  Column.ofMap key .string rows (fun row => printedCell row[key]?) fun _ => printedCell_fits _

/-- `rows_to_dataframe`. -/
def rowsToDataframe (rows : List Row) : Except PolarsError DataFrame :=
  DataFrame.newInferHeight ((rowKeys rows).map (printedColumn rows))

/-- The columns of printed values. -/
def printedTable (keys : List Bytes) (hn : keys.Nodup) : Table Row where
  keys := keys
  nodup := hn
  dtype := fun _ => .string
  cell := fun key row => printedCell row[key]?
  fits := fun _ _ => printedCell_fits _

/-- The frame of the rows is a table of their keys. -/
theorem rowsToDataframe_table (rows : List Row) :
    rowsToDataframe rows = .ok ((printedTable (rowKeys rows) (rowKeys_nodup rows)).frame rows) :=
  DataFrame.newInferHeight_ofKeys (rowKeys_nodup rows) _ _

variable (instant : DateTime → Int)

/-- `time >= *start && time <= *end`. -/
def inRange (start stop time : DateTime) : Bool :=
  decide (instant start ≤ instant time) && decide (instant time ≤ instant stop)

/-- `row_in_time_range`. -/
def rowInTimeRange (row : Row) (column : Bytes) (start stop : DateTime) : Bool :=
  ((row[column]?.map ParsedValue.asString).bind parseFromRfc3339).any (inRange instant start stop)

/-- What the frame filter keeps: only texts are read as times. -/
def cellInTimeRange (start stop : DateTime) : AnyValue → Bool
  | .string value => (parseFromRfc3339 value).any (inRange instant start stop)
  | _ => false

/-- `filter_df_by_time_range`. -/
def filterDfByTimeRange (df : DataFrame) (column : Bytes) (start stop : DateTime) :
    Except PolarsError DataFrame :=
  match h : df.column? column with
  -- a frame without the column is left as it is
  | none => .ok df
  | some c =>
      let mask := c.series.values.map (cellInTimeRange instant start stop)
      .ok (df.pickRows mask ((List.length_map _).trans
        (df.heights c (df.mem_columns_of_column? h))))

end PolarsLogfmt
