import PierGateway.Csv

/-!
# Tables and their renderings

A rendering says of each field whether it is quoted, and a field with a delimiter, a quote
or a break in it has to be. The parser reads every rendering back, up to one: a last row
made of one empty field is lost when it is written as two quotes with no break behind it.
-/
namespace PierGateway.Csv

variable {d : Delimiter}

/-- The units that are only written inside quotes. -/
def special (d : Delimiter) (ch : UInt16) : Bool :=
  ch = d.unit || ch = quote || ch = lineFeed || ch = carriageReturn

structure Cell (d : Delimiter) where
  value : Text
  quoted : Bool
  plain : quoted = false → ∀ ch ∈ value, special d ch = false

def doubled (value : Text) : Text :=
  value.flatMap fun ch => if ch = quote then [quote, quote] else [ch]

def Cell.text (c : Cell d) : Text :=
  if c.quoted then quote :: (doubled c.value ++ [quote]) else c.value

inductive LineBreak where
  | lf | cr | crlf
deriving DecidableEq, Repr

def LineBreak.units : LineBreak → Text
  | .lf => [lineFeed]
  | .cr => [carriageReturn]
  | .crlf => [carriageReturn, lineFeed]

def lineText : List (Cell d) → Text
  | [] => []
  | [c] => c.text
  | c :: c' :: cs => c.text ++ d.unit :: lineText (c' :: cs)

def tableText (brk : LineBreak) (finalBreak : Bool) : List (List (Cell d)) → Text
  | [] => []
  | [row] => lineText row ++ if finalBreak then brk.units else []
  | row :: row' :: rows => lineText row ++ (brk.units ++ tableText brk finalBreak (row' :: rows))

def rowValues (row : List (Cell d)) : List Text := row.map Cell.value

/-- A rendering of a table of 1 to 500 rows of 1 to 50 fields. -/
structure Rendering (d : Delimiter) where
  rows : List (List (Cell d))
  brk : LineBreak
  finalBreak : Bool
  rows_ne : rows ≠ []
  rows_le : rows.length ≤ maxCsvRows
  fields : ∀ row ∈ rows, row ≠ [] ∧ row.length ≤ maxCsvCols
  lastQuoted : finalBreak = false → ∀ c, rows.getLast? = some [c] → c.value = [] → c.quoted = true

def Rendering.text (r : Rendering d) : Text := tableText r.brk r.finalBreak r.rows

def Rendering.table (r : Rendering d) : List (List Text) := r.rows.map rowValues

/-! ### Fields -/

section
variable {rows : List (List Text)} {row : List Text} {field : Text} {truncated : Bool}

theorem scan_inQuotes {ch : UInt16} (h : ch ≠ quote) (rest : Text) :
    scan .absent d ⟨rows, row, field, true, truncated⟩ false (ch :: rest) =
      scan .absent d ⟨rows, row, field ++ [ch], true, truncated⟩ false rest := by
  rw [scan_absent_cons]
  simp only [turn, if_neg h, if_true]

theorem scan_quotePair (rest : Text) :
    scan .absent d ⟨rows, row, field, true, truncated⟩ false (quote :: quote :: rest) =
      scan .absent d ⟨rows, row, field ++ [quote], true, truncated⟩ false rest := by
  rw [scan_absent_cons]
  rfl

theorem scan_closing {rest : Text} (h : rest.head? ≠ some quote) :
    scan .absent d ⟨rows, row, field, true, truncated⟩ false (quote :: rest) =
      scan .absent d ⟨rows, row, field, false, truncated⟩ false rest := by
  rw [scan_absent_cons]
  simp only [turn, if_neg h, if_true]

theorem scan_doubled {rest : Text} (h : rest.head? ≠ some quote) (value : Text) :
    scan .absent d ⟨rows, row, field, true, truncated⟩ false (doubled value ++ quote :: rest) =
      scan .absent d ⟨rows, row, field ++ value, false, truncated⟩ false rest := by
  induction value generalizing field with
  | nil =>
      rw [List.append_nil]
      exact scan_closing h
  | cons ch value ih =>
      have hstep : doubled (ch :: value) =
          (if ch = quote then [quote, quote] else [ch]) ++ doubled value := rfl
      rw [hstep, List.append_assoc]
      by_cases hch : ch = quote
      · rw [if_pos hch, hch]
        simp only [List.cons_append, List.nil_append]
        rw [scan_quotePair, ih, List.append_assoc]
        rfl
      · rw [if_neg hch]
        simp only [List.cons_append, List.nil_append]
        rw [scan_inQuotes hch, ih, List.append_assoc]
        rfl

theorem scan_plain {value : Text} (h : ∀ ch ∈ value, special d ch = false) (rest : Text) :
    scan .absent d ⟨rows, row, field, false, truncated⟩ false (value ++ rest) =
      scan .absent d ⟨rows, row, field ++ value, false, truncated⟩ false rest := by
  induction value generalizing field with
  | nil => rw [List.append_nil, List.nil_append]
  | cons ch value ih =>
      have hch := h ch List.mem_cons_self
      simp only [special, Bool.or_eq_false_iff, decide_eq_false_iff_not] at hch
      obtain ⟨⟨⟨hd, hquote⟩, hlf⟩, hcr⟩ := hch
      rw [List.cons_append, scan_absent_cons]
      simp only [turn, Bool.false_eq_true, hquote, hd, hlf, hcr, false_and, or_self, if_false]
      rw [ih (fun x hx => h x (List.mem_cons_of_mem _ hx)), List.append_assoc]
      rfl

theorem scan_cell (c : Cell d) {rest : Text} (h : rest.head? ≠ some quote) :
    scan .absent d ⟨rows, row, [], false, truncated⟩ false (c.text ++ rest) =
      scan .absent d ⟨rows, row, c.value, false, truncated⟩ false rest := by
  unfold Cell.text
  cases hq : c.quoted with
  | true =>
      rw [if_pos rfl, List.cons_append, List.append_assoc, scan_absent_cons]
      simp only [turn, Bool.false_eq_true, if_false, if_true, and_self]
      exact scan_doubled h c.value
  | false =>
      rw [if_neg (by decide)]
      exact scan_plain (c.plain hq) rest

/-! ### Rows -/

theorem scan_delimiter (rest : Text) :
    scan .absent d ⟨rows, row, field, false, truncated⟩ false (d.unit :: rest) =
      scan .absent d ⟨rows, row ++ [field], [], false, truncated⟩ false rest := by
  have hquote : d.unit ≠ quote := by cases d <;> decide
  rw [scan_absent_cons]
  simp only [turn, Bool.false_eq_true, if_false, hquote, false_and, if_true, pushField_absent]

theorem turn_absent_break {ch : UInt16} (hch : ch = lineFeed ∨ ch = carriageReturn)
    (next : Option UInt16) :
    turn .absent d ⟨rows, row, field, false, truncated⟩ ch next =
      { state := ⟨rows ++ [row ++ [field]], [], [], false, truncated⟩
        skip := ch = carriageReturn ∧ next = some lineFeed } := by
  have hquote : ch ≠ quote := by rcases hch with rfl | rfl <;> decide
  have hd : ch ≠ d.unit := by rcases hch with rfl | rfl <;> cases d <;> decide
  simp only [turn, Bool.false_eq_true, if_false, hquote, false_and, hd, hch, if_true,
    pushRow_absent]

theorem scan_break {brk : LineBreak} {rest : Text}
    (h : brk = .cr → rest.head? ≠ some lineFeed) :
    scan .absent d ⟨rows, row, field, false, truncated⟩ false (brk.units ++ rest) =
      scan .absent d ⟨rows ++ [row ++ [field]], [], [], false, truncated⟩ false rest := by
  cases brk with
  | lf =>
      change scan .absent d _ false (lineFeed :: rest) = _
      rw [scan_absent_cons, turn_absent_break (Or.inl rfl)]
      rfl
  | cr =>
      change scan .absent d _ false (carriageReturn :: rest) = _
      rw [scan_absent_cons, turn_absent_break (Or.inr rfl)]
      simp only [h rfl, and_false, decide_false]
  | crlf =>
      change scan .absent d _ false (carriageReturn :: lineFeed :: rest) = _
      rw [scan_absent_cons, turn_absent_break (Or.inr rfl)]
      rfl

/-- What the loop has read behind a line: all but the last field are in the row. -/
theorem scan_line (rows : List (List Text)) (truncated : Bool) {cs : List (Cell d)}
    (hcs : cs ≠ []) :
    ∃ fields last, rowValues cs = fields ++ [last] ∧
      ∀ (row : List Text) (rest : Text), rest.head? ≠ some quote →
        scan .absent d ⟨rows, row, [], false, truncated⟩ false (lineText cs ++ rest) =
          scan .absent d ⟨rows, row ++ fields, last, false, truncated⟩ false rest := by
  induction cs with
  | nil => exact absurd rfl hcs
  | cons c cs ih =>
      cases cs with
      | nil =>
          refine ⟨[], c.value, rfl, ?_⟩
          intro row rest hrest
          rw [List.append_nil]
          exact scan_cell c hrest
      | cons c' cs =>
          obtain ⟨fields, last, hvalues, hscan⟩ := ih (by simp)
          refine ⟨c.value :: fields, last, ?_, ?_⟩
          · change c.value :: rowValues (c' :: cs) = _
            rw [hvalues]
            rfl
          · intro row rest hrest
            have hd : d.unit ≠ quote := by cases d <;> decide
            rw [lineText, List.append_assoc, scan_cell c (by simpa using hd), List.cons_append,
              scan_delimiter, hscan _ rest hrest, List.append_assoc]
            rfl

theorem LineBreak.head_ne_quote (brk : LineBreak) (rest : Text) :
    (brk.units ++ rest).head? ≠ some quote := by
  cases brk <;> simp [LineBreak.units, lineFeed, carriageReturn, quote]

theorem scan_row (rows : List (List Text)) (truncated : Bool) {cs : List (Cell d)} (hcs : cs ≠ [])
    {brk : LineBreak} {rest : Text} (h : brk = .cr → rest.head? ≠ some lineFeed) :
    scan .absent d ⟨rows, [], [], false, truncated⟩ false (lineText cs ++ (brk.units ++ rest)) =
      scan .absent d ⟨rows ++ [rowValues cs], [], [], false, truncated⟩ false rest := by
  obtain ⟨fields, last, hvalues, hscan⟩ := scan_line rows truncated hcs
  rw [hscan [] _ (brk.head_ne_quote rest), scan_break h, hvalues, List.nil_append]

/-- At the end of the text a row is flushed unless it is one empty field. -/
theorem flush_line {cs : List (Cell d)} (hcs : cs ≠ []) :
    (flush .absent (scan .absent d ⟨rows, [], [], false, truncated⟩ false (lineText cs)).1).rows =
      if rowValues cs = [[]] then rows else rows ++ [rowValues cs] := by
  obtain ⟨fields, last, hvalues, hscan⟩ := scan_line rows truncated hcs
  have hrun := hscan [] [] (by simp)
  rw [List.append_nil, List.nil_append] at hrun
  rw [hrun, hvalues]
  unfold flush scan
  rw [pushRow_absent]
  cases fields with
  | nil => by_cases hlast : last = [] <;> simp [hlast]
  | cons f fields => simp

/-! ### Tables -/

theorem Cell.head_ne_lineFeed (c : Cell d) {rest : Text} (h : rest.head? ≠ some lineFeed) :
    (c.text ++ rest).head? ≠ some lineFeed := by
  unfold Cell.text
  cases hq : c.quoted with
  | true => simp [lineFeed, quote]
  | false =>
      rw [if_neg (by decide)]
      cases hvalue : c.value with
      | nil => exact h
      | cons ch value =>
          have hch := c.plain hq ch (by rw [hvalue]; exact List.mem_cons_self)
          intro hhead
          obtain rfl : ch = lineFeed := by simpa using hhead
          simp [special] at hch

theorem lineText_head_ne_lineFeed (cs : List (Cell d)) {rest : Text}
    (h : rest.head? ≠ some lineFeed) : (lineText cs ++ rest).head? ≠ some lineFeed := by
  cases cs with
  | nil => exact h
  | cons c cs =>
      cases cs with
      | nil => exact c.head_ne_lineFeed h
      | cons c' cs =>
          rw [lineText, List.append_assoc]
          apply c.head_ne_lineFeed
          cases d <;> simp [Delimiter.unit, lineFeed]

theorem tableText_head_ne_lineFeed (finalBreak : Bool) (table : List (List (Cell d))) :
    (tableText .cr finalBreak table).head? ≠ some lineFeed := by
  cases table with
  | nil => simp [tableText]
  | cons cs table =>
      cases table with
      | nil =>
          rw [tableText]
          apply lineText_head_ne_lineFeed
          cases finalBreak <;> simp [LineBreak.units, lineFeed, carriageReturn]
      | cons cs' table =>
          rw [tableText]
          apply lineText_head_ne_lineFeed
          simp [LineBreak.units, lineFeed, carriageReturn]

/-- The rows read are those written, but for a last row of one empty field with no break. -/
def rowsRead (finalBreak : Bool) (table : List (List Text)) : List (List Text) :=
  if finalBreak = true ∨ table.getLast? ≠ some [[]] then table else table.dropLast

theorem rowsRead_cons (finalBreak : Bool) (r r' : List Text) (table : List (List Text)) :
    rowsRead finalBreak (r :: r' :: table) = r :: rowsRead finalBreak (r' :: table) := by
  unfold rowsRead
  rw [List.getLast?_cons_cons, List.dropLast_cons_cons, apply_ite (List.cons r)]

theorem scan_table {brk : LineBreak} {finalBreak : Bool} {table : List (List (Cell d))}
    (hne : table ≠ []) (hrows : ∀ cs ∈ table, cs ≠ []) :
    (flush .absent (scan .absent d ⟨rows, [], [], false, truncated⟩ false
      (tableText brk finalBreak table)).1).rows =
      rows ++ rowsRead finalBreak (table.map rowValues) := by
  induction table generalizing rows with
  | nil => exact absurd rfl hne
  | cons cs table ih =>
      have hcs : cs ≠ [] := hrows cs List.mem_cons_self
      cases table with
      | nil =>
          rw [tableText]
          cases finalBreak with
          | true =>
              have hrest : brk = .cr → ([] : Text).head? ≠ some lineFeed := by simp
              have hrun := scan_row rows truncated hcs hrest
              rw [List.append_nil] at hrun
              rw [if_pos rfl, hrun]
              simp [rowsRead, flush, scan]
          | false =>
              rw [if_neg (by decide), List.append_nil, flush_line hcs]
              by_cases hempty : rowValues cs = [[]] <;> simp [rowsRead, hempty]
      | cons cs' table =>
          have hbreak : brk = .cr →
              (tableText brk finalBreak (cs' :: table)).head? ≠ some lineFeed := by
            intro hcr
            rw [hcr]
            exact tableText_head_ne_lineFeed finalBreak (cs' :: table)
          rw [tableText, scan_row rows truncated hcs hbreak,
            ih (by simp) (fun x hx => hrows x (List.mem_cons_of_mem _ hx)), List.append_assoc]
          simp only [List.map_cons, rowsRead_cons, List.cons_append, List.nil_append]

end

theorem Rendering.uncappedRows_text (r : Rendering d) :
    uncappedRows d r.text = rowsRead r.finalBreak r.table := by
  rw [uncappedRows_eq]
  exact scan_table r.rows_ne fun cs hcs => (r.fields cs hcs).1

theorem rowsRead_sublist (finalBreak : Bool) (table : List (List Text)) :
    (rowsRead finalBreak table).Sublist table := by
  unfold rowsRead
  split_ifs
  · exact List.Sublist.refl _
  · exact List.dropLast_sublist _

/-- A rendering stays below the caps. -/
theorem Rendering.parseCsv_text (r : Rendering d) :
    parseCsv d r.text = finish (rowsRead r.finalBreak r.table) false := by
  have hcut := parse_cut (n := maxCsvRows) (m := maxCsvCols) (by decide) d r.text
  have hsub := rowsRead_sublist r.finalBreak r.table
  have hlen : (rowsRead r.finalBreak r.table).length ≤ maxCsvRows := by
    have htable : r.table.length = r.rows.length := List.length_map ..
    have := hsub.length_le
    have := r.rows_le
    omega
  have hfields : ∀ row ∈ rowsRead r.finalBreak r.table, row.length ≤ maxCsvCols := by
    intro row hrow
    obtain ⟨cs, hcs, rfl⟩ := List.mem_map.mp (hsub.subset hrow)
    rw [rowValues, List.length_map]
    exact (r.fields cs hcs).2
  rw [r.uncappedRows_text] at hcut
  have hall := hcut.rows
  rw [List.take_of_length_le hlen] at hall
  have hrows : (parse .preview d r.text).rows = rowsRead r.finalBreak r.table := by
    calc (parse .preview d r.text).rows
        = (rowsRead r.finalBreak r.table).map (List.take maxCsvCols) := hall
      _ = (rowsRead r.finalBreak r.table).map id :=
          List.map_congr_left fun row hrow => List.take_of_length_le (hfields row hrow)
      _ = rowsRead r.finalBreak r.table := List.map_id _
  have hflag : (parse .preview d r.text).truncated = false := by
    rw [Bool.eq_false_iff]
    intro htrue
    rcases hcut.truncated.mp htrue with hmany | ⟨row, hrow, hlong⟩
    · omega
    · have := hfields row (List.mem_of_mem_take hrow)
      omega
  rw [parseCsv, hrows, hflag]

/-- The parser reads back exactly the renderings whose last row is not one empty field
without a break behind it. -/
theorem parseCsv_rendering (r : Rendering d) :
    parseCsv d r.text = ⟨r.table.headD [], r.table.tail, false⟩ ↔
      r.finalBreak = true ∨ r.table.getLast? ≠ some [[]] := by
  have hne : r.table ≠ [] := by
    intro hnil
    exact r.rows_ne (List.map_eq_nil_iff.mp hnil)
  obtain ⟨row, rows, htable⟩ := List.exists_cons_of_ne_nil hne
  rw [r.parseCsv_text, htable]
  constructor
  · intro h
    by_contra hcond
    rw [rowsRead, if_neg hcond] at h
    cases rows with
    | nil =>
        obtain rfl : row = [[]] := by
          simpa using (not_or.mp hcond).2
        have hheader : ([] : List Text) = [[]] := congrArg CsvTable.header h
        cases hheader
    | cons row' rows =>
        rw [List.dropLast_cons_cons] at h
        have hrows : (row' :: rows).dropLast = row' :: rows := congrArg CsvTable.rows h
        have hlen := congrArg List.length hrows
        rw [List.length_dropLast, List.length_cons] at hlen
        omega
  · intro h
    rw [rowsRead, if_pos h]
    rfl

/-- Two lines, the second one an empty field in quotes at the end of the text. -/
def emptyLastRow : Rendering .comma where
  rows := [[⟨[0x61], false, by simp [special, Delimiter.unit, quote, lineFeed, carriageReturn]⟩],
    [⟨[], true, by simp⟩]]
  brk := .lf
  finalBreak := false
  rows_ne := by decide
  rows_le := by decide
  fields := by
    intro row hrow
    fin_cases hrow <;> exact ⟨by simp, by decide⟩
  lastQuoted := by
    intro _ c hc _
    obtain rfl : (⟨[], true, by simp⟩ : Cell .comma) = c := by simpa using hc
    rfl

theorem parseCsv_drops_emptyLastRow :
    emptyLastRow.text = [0x61, lineFeed, quote, quote] ∧
    emptyLastRow.table = [[[0x61]], [[]]] ∧
    parseCsv .comma emptyLastRow.text = ⟨[[0x61]], [], false⟩ ∧
    ¬ ∀ (d : Delimiter) (r : Rendering d),
      parseCsv d r.text = ⟨r.table.headD [], r.table.tail, false⟩ := by
  have hdrop : parseCsv .comma emptyLastRow.text = ⟨[[0x61]], [], false⟩ := by decide
  refine ⟨by decide, by decide, hdrop, ?_⟩
  intro h
  have hall := h .comma emptyLastRow
  rw [hdrop] at hall
  exact absurd hall (by decide)

end PierGateway.Csv
