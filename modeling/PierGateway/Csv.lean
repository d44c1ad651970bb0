import Mathlib.Data.List.Basic
import Mathlib.Tactic

/-!
# The CSV preview

The parser of the preview is a loop over the UTF-16 units of the text with four
variables and a flag. Its two caps sit inside the closures that end a field and a row,
and the second of them leaves the loop. The caps are parameters here, so that the same
loop can run without them. The law says that the capped run is the uncapped one, cut.
-/
namespace PierGateway.Csv

/-- A string of the browser: its UTF-16 code units. -/
abbrev Text := List UInt16

abbrev quote : UInt16 := 0x22
abbrev lineFeed : UInt16 := 0x0A
abbrev carriageReturn : UInt16 := 0x0D

inductive Delimiter where
  | comma | tab
deriving DecidableEq, Repr

def Delimiter.unit : Delimiter → UInt16
  | .comma => 0x2C
  | .tab => 0x09

structure CsvTable where
  header : List Text
  rows : List (List Text)
  truncated : Bool
deriving DecidableEq, Repr

/-- An absent cap is never reached. -/
structure Caps where
  rows : Option Nat
  cols : Option Nat

def maxCsvRows : Nat := 500
def maxCsvCols : Nat := 50

def Caps.preview : Caps := ⟨some maxCsvRows, some maxCsvCols⟩
def Caps.absent : Caps := ⟨none, none⟩

/-- The variables of the loop. -/
structure Scanner where
  rows : List (List Text) := []
  row : List Text := []
  field : Text := []
  inQuotes : Bool := false
  truncated : Bool := false
deriving DecidableEq, Repr

def pushField (caps : Caps) (s : Scanner) : Scanner :=
  if caps.cols.all (s.row.length < ·) then { s with row := s.row ++ [s.field], field := [] }
  else { s with truncated := true, field := [] }

/-- The flag is the value of the closure: whether the loop goes on. -/
def pushRow (caps : Caps) (s : Scanner) : Scanner × Bool :=
  let s := pushField caps s
  let s := { s with rows := s.rows ++ [s.row], row := [] }
  match caps.rows with
  | none => (s, true)
  | some n =>
      if n < s.rows.length then ({ s with rows := s.rows.take n, truncated := true }, false)
      else (s, true)

/-- What one turn of the loop leaves. A turn that has read two units has `skip` set. -/
structure Turn where
  state : Scanner
  skip : Bool := false
  goesOn : Bool := true

def turn (caps : Caps) (d : Delimiter) (s : Scanner) (ch : UInt16) (next : Option UInt16) : Turn :=
  if s.inQuotes then
    if ch = quote then
      if next = some quote then { state := { s with field := s.field ++ [quote] }, skip := true }
      else { state := { s with inQuotes := false } }
    else { state := { s with field := s.field ++ [ch] } }
  else if ch = quote ∧ s.field = [] then { state := { s with inQuotes := true } }
  else if ch = d.unit then { state := pushField caps s }
  else if ch = lineFeed ∨ ch = carriageReturn then
    { state := (pushRow caps s).1
      skip := ch = carriageReturn ∧ next = some lineFeed
      goesOn := (pushRow caps s).2 }
  else { state := { s with field := s.field ++ [ch] } }

/-- The loop, with the text that is still unread if it is left before the end. -/
def scan (caps : Caps) (d : Delimiter) : Scanner → Bool → Text → Scanner × Option Text
  | s, _, [] => (s, none)
  | s, true, _ :: rest => scan caps d s false rest
  | s, false, ch :: rest =>
      if (turn caps d s ch rest.head?).goesOn then
        scan caps d (turn caps d s ch rest.head?).state (turn caps d s ch rest.head?).skip rest
      else ((turn caps d s ch rest.head?).state,
        some (if (turn caps d s ch rest.head?).skip then rest.tail else rest))

/-- The last field and row, unless the text ended on a row break. -/
def flush (caps : Caps) (s : Scanner) : Scanner :=
  if s.field ≠ [] ∨ 0 < s.row.length then (pushRow caps s).1 else s

/-- The variables when `finish` is called. -/
def parse (caps : Caps) (d : Delimiter) (text : Text) : Scanner :=
  match (scan caps d {} false text).2 with
  | none => flush caps (scan caps d {} false text).1
  | some _ => (scan caps d {} false text).1

def finish : List (List Text) → Bool → CsvTable
  | [], truncated => ⟨[], [], truncated⟩
  | header :: body, truncated => ⟨header, body, truncated⟩

def parseCsv (d : Delimiter) (text : Text) : CsvTable :=
  finish (parse .preview d text).rows (parse .preview d text).truncated

/-- The rows the loop makes of a text without the caps. -/
def uncappedRows (d : Delimiter) (text : Text) : List (List Text) := (parse .absent d text).rows

/-- The rows complete when the uncapped loop has read a text, before the last flush. -/
def completeRows (d : Delimiter) (text : Text) : List (List Text) :=
  (scan .absent d {} false text).1.rows

/-! ### What a turn does -/

/-- A turn reads the unit into the field or the quote state, ends the field, or ends the row.
Which of these it does depends on the field and the quote state alone. -/
theorem turn_cases (d : Delimiter) (field : Text) (inQuotes : Bool) (ch : UInt16)
    (next : Option UInt16) :
    (∃ field' inQuotes' skip, ∀ (caps : Caps) (s : Scanner), s.field = field →
      s.inQuotes = inQuotes → turn caps d s ch next =
        { state := { s with field := field', inQuotes := inQuotes' }, skip := skip }) ∨
    (∀ (caps : Caps) (s : Scanner), s.field = field → s.inQuotes = inQuotes →
      turn caps d s ch next = { state := pushField caps s }) ∨
    ((ch = lineFeed ∨ ch = carriageReturn) ∧
      ∀ (caps : Caps) (s : Scanner), s.field = field → s.inQuotes = inQuotes →
        turn caps d s ch next =
          { state := (pushRow caps s).1
            skip := ch = carriageReturn ∧ next = some lineFeed
            goesOn := (pushRow caps s).2 }) := by
  cases inQuotes with
  | true =>
      left
      by_cases hch : ch = quote
      · by_cases hnext : next = some quote
        · refine ⟨field ++ [quote], true, true, ?_⟩
          intro caps s hf hq
          unfold turn
          rw [if_pos hq, if_pos hch, if_pos hnext, hf, ← hq]
        · refine ⟨field, false, false, ?_⟩
          intro caps s hf hq
          unfold turn
          rw [if_pos hq, if_pos hch, if_neg hnext, ← hf]
      · refine ⟨field ++ [ch], true, false, ?_⟩
        intro caps s hf hq
        unfold turn
        rw [if_pos hq, if_neg hch, hf, ← hq]
  | false =>
      by_cases hopen : ch = quote ∧ field = []
      · refine Or.inl ⟨field, true, false, ?_⟩
        intro caps s hf hq
        unfold turn
        rw [hf, hq, if_neg (by decide), if_pos hopen, ← hf]
      · by_cases hd : ch = d.unit
        · refine Or.inr (Or.inl ?_)
          intro caps s hf hq
          unfold turn
          rw [hf, hq, if_neg (by decide), if_neg hopen, if_pos hd]
        · by_cases hbreak : ch = lineFeed ∨ ch = carriageReturn
          · refine Or.inr (Or.inr ⟨hbreak, ?_⟩)
            intro caps s hf hq
            unfold turn
            rw [hf, hq, if_neg (by decide), if_neg hopen, if_neg hd, if_pos hbreak]
          · refine Or.inl ⟨field ++ [ch], false, false, ?_⟩
            intro caps s hf hq
            unfold turn
            rw [hf, hq, if_neg (by decide), if_neg hopen, if_neg hd, if_neg hbreak, ← hq]

/-! ### The loop without caps -/

theorem pushField_absent (s : Scanner) :
    pushField .absent s = { s with row := s.row ++ [s.field], field := [] } := rfl

theorem pushRow_absent (s : Scanner) : pushRow .absent s =
    ({ s with rows := s.rows ++ [s.row ++ [s.field]], row := [], field := [] }, true) := rfl

theorem turn_absent_goesOn (d : Delimiter) (s : Scanner) (ch : UInt16) (next : Option UInt16) :
    (turn .absent d s ch next).goesOn = true := by
  unfold turn
  split_ifs <;> rfl

theorem scan_absent_cons (d : Delimiter) (s : Scanner) (ch : UInt16) (rest : Text) :
    scan .absent d s false (ch :: rest) =
      scan .absent d (turn .absent d s ch rest.head?).state
        (turn .absent d s ch rest.head?).skip rest := by
  rw [scan, if_pos (turn_absent_goesOn d s ch rest.head?)]

theorem scan_absent_unread (d : Delimiter) (text : Text) :
    ∀ (s : Scanner) (skip : Bool), (scan .absent d s skip text).2 = none := by
  induction text with
  | nil =>
      intro s skip
      rfl
  | cons ch rest ih =>
      intro s skip
      cases skip with
      | true => exact ih s false
      | false =>
          rw [scan_absent_cons]
          exact ih _ _

/-- A turn that reads one unit does not depend on the next one. -/
theorem turn_eq_of_skip {caps : Caps} {d : Delimiter} {s : Scanner} {ch : UInt16}
    {next : Option UInt16} (h : (turn caps d s ch next).skip = false) :
    turn caps d s ch none = turn caps d s ch next := by
  unfold turn at h ⊢
  split_ifs at h ⊢ <;> simp_all

theorem uncappedRows_eq (d : Delimiter) (text : Text) :
    uncappedRows d text = (flush .absent (scan .absent d {} false text).1).rows := by
  unfold uncappedRows parse
  rw [scan_absent_unread]

theorem turn_absent_rows (d : Delimiter) (s : Scanner) (ch : UInt16) (next : Option UInt16) :
    s.rows <+: (turn .absent d s ch next).state.rows := by
  unfold turn
  simp only [pushRow_absent, pushField_absent]
  split_ifs <;> simp

theorem scan_absent_rows (d : Delimiter) (text : Text) :
    ∀ (s : Scanner) (skip : Bool), s.rows <+: (scan .absent d s skip text).1.rows := by
  induction text with
  | nil =>
      intro s skip
      exact List.prefix_refl _
  | cons ch rest ih =>
      intro s skip
      cases skip with
      | true => exact ih s false
      | false =>
          rw [scan_absent_cons]
          exact (turn_absent_rows d s ch rest.head?).trans (ih _ _)

theorem flush_absent_rows (s : Scanner) : s.rows <+: (flush .absent s).rows := by
  unfold flush
  rw [pushRow_absent]
  split_ifs <;> simp

/-! ### The capped loop follows the uncapped one -/

section
variable {n m : Nat} {d : Delimiter} {u c : Scanner}

/-- The variables of the capped loop while it follows the uncapped one. -/
structure Follows (n m : Nat) (u c : Scanner) : Prop where
  rows : c.rows = u.rows.map (List.take m)
  row : c.row = u.row.take m
  field : c.field = u.field
  inQuotes : c.inQuotes = u.inQuotes
  truncated : c.truncated = true ↔ (∃ r ∈ u.rows, m < r.length) ∨ m < u.row.length
  few : u.rows.length ≤ n

/-- The variables of the capped loop when it has been left. -/
structure Stopped (n m : Nat) (u c : Scanner) : Prop where
  rows : c.rows = (u.rows.take n).map (List.take m)
  truncated : c.truncated = true
  many : n < u.rows.length

theorem Follows.pushField (h : Follows n m u c) :
    Follows n m (pushField .absent u) (pushField ⟨some n, some m⟩ c) := by
  have hlen : c.row.length = min m u.row.length := by rw [h.row, List.length_take]
  rw [pushField_absent]
  unfold Csv.pushField
  by_cases hroom : c.row.length < m
  · have hshort : u.row.length < m := by omega
    have htake : (u.row ++ [u.field]).take m = u.row ++ [u.field] :=
      List.take_of_length_le (by rw [List.length_append, List.length_singleton]; omega)
    have hrow : u.row.take m = u.row := List.take_of_length_le (by omega)
    rw [if_pos (by simpa using hroom)]
    refine ⟨h.rows, ?_, rfl, h.inQuotes, ?_, h.few⟩
    · rw [htake, h.row, hrow, h.field]
    · rw [h.truncated, List.length_append, List.length_singleton]
      have : ¬ m < u.row.length ∧ ¬ m < u.row.length + 1 := by omega
      simp only [this.1, this.2]
  · have hlong : m ≤ u.row.length := by omega
    rw [if_neg (by simpa using hroom)]
    refine ⟨h.rows, ?_, rfl, h.inQuotes, ?_, h.few⟩
    · rw [List.take_append_of_le_length hlong]
      exact h.row
    · rw [List.length_append, List.length_singleton]
      have : m < u.row.length + 1 := by omega
      simp only [this, or_true]

/-- A row that is ended below the cap is one more row; at the cap it ends the loop. -/
theorem Follows.pushRow (h : Follows n m u c) :
    if u.rows.length < n then
      (pushRow ⟨some n, some m⟩ c).2 = true ∧
        Follows n m (pushRow .absent u).1 (pushRow ⟨some n, some m⟩ c).1
    else
      (pushRow ⟨some n, some m⟩ c).2 = false ∧
        Stopped n m (pushRow .absent u).1 (pushRow ⟨some n, some m⟩ c).1 := by
  have hp := h.pushField
  have hlen : c.rows.length = u.rows.length := by rw [h.rows, List.length_map]
  have hrows : (Csv.pushField ⟨some n, some m⟩ c).rows = c.rows := by
    unfold Csv.pushField
    split_ifs <;> rfl
  have hmap : (Csv.pushField ⟨some n, some m⟩ c).rows ++ [(Csv.pushField ⟨some n, some m⟩ c).row] =
      (u.rows ++ [u.row ++ [u.field]]).map (List.take m) := by
    rw [hp.row, hp.rows, pushField_absent, List.map_append]
    rfl
  rw [pushRow_absent]
  unfold Csv.pushRow
  simp only [hmap, List.length_map, List.length_append, List.length_singleton]
  split_ifs with hfew hcap hcap
  · omega
  · refine ⟨rfl, rfl, List.take_nil.symm, hp.field, hp.inQuotes, ?_, ?_⟩
    · rw [hp.truncated, pushField_absent]
      simp only [List.mem_append, List.mem_singleton, or_and_right, exists_or, exists_eq_left,
        List.length_nil, Nat.not_lt_zero, or_false]
    · rw [List.length_append, List.length_singleton]
      omega
  · refine ⟨rfl, ?_, rfl, ?_⟩
    · rw [← List.map_take]
    · rw [List.length_append, List.length_singleton]
      omega
  · omega

/-- What one turn of the capped loop does beside the same turn without the caps. -/
theorem Follows.turn (h : Follows n m u c) (ch : UInt16) (next : Option UInt16) :
    (turn ⟨some n, some m⟩ d c ch next).skip = (turn .absent d u ch next).skip ∧
    if (turn ⟨some n, some m⟩ d c ch next).goesOn then
      Follows n m (turn .absent d u ch next).state (turn ⟨some n, some m⟩ d c ch next).state
    else
      u.rows.length = n ∧ (ch = lineFeed ∨ ch = carriageReturn) ∧
      (turn .absent d u ch next).skip = decide (ch = carriageReturn ∧ next = some lineFeed) ∧
      (turn .absent d u ch next).state = (Csv.pushRow .absent u).1 ∧
      Stopped n m (turn .absent d u ch next).state (turn ⟨some n, some m⟩ d c ch next).state := by
  rcases turn_cases d u.field u.inQuotes ch next with hread | hfield | hbreak
  · obtain ⟨field, inQuotes, skip, hturn⟩ := hread
    rw [hturn _ c h.field h.inQuotes, hturn _ u rfl rfl]
    exact ⟨rfl, h.rows, h.row, rfl, rfl, h.truncated, h.few⟩
  · rw [hfield _ c h.field h.inQuotes, hfield _ u rfl rfl]
    exact ⟨rfl, h.pushField⟩
  · obtain ⟨hch, hturn⟩ := hbreak
    have hrow := h.pushRow
    have hfew := h.few
    rw [hturn _ c h.field h.inQuotes, hturn _ u rfl rfl]
    refine ⟨rfl, ?_⟩
    by_cases hroom : u.rows.length < n
    · rw [if_pos hroom] at hrow
      rw [if_pos hrow.1]
      exact hrow.2
    · rw [if_neg hroom] at hrow
      rw [if_neg (by simp [hrow.1])]
      exact ⟨by omega, hch, rfl, rfl, hrow.2⟩

/-- A break as the loop reads it: a carriage return takes a line feed behind it along. -/
def RowBreak (brk rest : Text) : Prop :=
  brk = [lineFeed] ∨ brk = [carriageReturn, lineFeed] ∨
    brk = [carriageReturn] ∧ rest.head? ≠ some lineFeed

/-- The loop over `text` has completed row `n + 1` when `rest` is left: `brk` is the break
that does it, and the loop without the caps goes on there. -/
structure Completes (d : Delimiter) (n : Nat) (u : Scanner) (skip : Bool)
    (text body brk rest : Text) : Prop where
  split : text = body ++ (brk ++ rest)
  rowBreak : RowBreak brk rest
  skipped : skip = true → body ≠ []
  before : (scan .absent d u skip body).1.rows.length = n
  after : (scan .absent d u skip (body ++ brk)).1.rows.length = n + 1
  onward : scan .absent d u skip text =
    scan .absent d (scan .absent d u skip (body ++ brk)).1 false rest

/-- The unit in front of the rest of a run is read as in the run of a prefix. -/
theorem turn_prefix {body tail : Text} {ch : UInt16}
    (h : (turn .absent d u ch (body ++ tail).head?).skip = true → body ≠ []) :
    turn .absent d u ch body.head? = turn .absent d u ch (body ++ tail).head? := by
  cases body with
  | nil =>
      apply turn_eq_of_skip
      cases hskip : (turn .absent d u ch ([] ++ tail).head?).skip with
      | false => rfl
      | true => exact absurd rfl (h hskip)
  | cons next body => rfl

theorem Completes.turn_body {ch : UInt16} {tail body brk rest : Text}
    (h : Completes d n (turn .absent d u ch tail.head?).state
      (turn .absent d u ch tail.head?).skip tail body brk rest) :
    turn .absent d u ch body.head? = turn .absent d u ch tail.head? := by
  rw [h.split]
  apply turn_prefix
  rw [← h.split]
  exact h.skipped

theorem Completes.turn_break {ch : UInt16} {tail body brk rest : Text}
    (h : Completes d n (turn .absent d u ch tail.head?).state
      (turn .absent d u ch tail.head?).skip tail body brk rest) :
    turn .absent d u ch (body ++ brk).head? = turn .absent d u ch tail.head? := by
  rw [h.split, ← List.append_assoc]
  apply turn_prefix
  rw [List.append_assoc, ← h.split]
  intro hskip hnil
  exact h.skipped hskip (List.append_eq_nil_iff.mp hnil).1

theorem Completes.cons {ch : UInt16} {tail body brk rest : Text}
    (h : Completes d n (turn .absent d u ch tail.head?).state
      (turn .absent d u ch tail.head?).skip tail body brk rest) :
    Completes d n u false (ch :: tail) (ch :: body) brk rest := by
  refine ⟨?_, h.rowBreak, by simp, ?_, ?_, ?_⟩
  · rw [List.cons_append, ← h.split]
  · rw [scan_absent_cons, h.turn_body]
    exact h.before
  · rw [List.cons_append, scan_absent_cons, h.turn_break]
    exact h.after
  · rw [List.cons_append, scan_absent_cons, scan_absent_cons, h.turn_break]
    exact h.onward

/-- A unit that has been read along in front of such a run. -/
theorem Completes.skip {ch : UInt16} {tail body brk rest : Text}
    (h : Completes d n u false tail body brk rest) :
    Completes d n u true (ch :: tail) (ch :: body) brk rest := by
  refine ⟨?_, h.rowBreak, by simp, h.before, h.after, h.onward⟩
  rw [List.cons_append, ← h.split]

theorem Completes.here {ch : UInt16} {tail : Text} (hlen : u.rows.length = n)
    (hch : ch = lineFeed ∨ ch = carriageReturn)
    (hskip : (turn .absent d u ch tail.head?).skip =
      decide (ch = carriageReturn ∧ tail.head? = some lineFeed))
    (hstate : (turn .absent d u ch tail.head?).state = (Csv.pushRow .absent u).1) :
    ∃ brk, Completes d n u false (ch :: tail) [] brk
        (if (turn .absent d u ch tail.head?).skip then tail.tail else tail) ∧
      scan .absent d u false brk = ((turn .absent d u ch tail.head?).state, none) := by
  have hrows : (turn .absent d u ch tail.head?).state.rows.length = n + 1 := by
    rw [hstate, pushRow_absent, List.length_append, List.length_singleton, hlen]
  by_cases hpair : ch = carriageReturn ∧ tail.head? = some lineFeed
  · obtain ⟨rfl, hhead⟩ := hpair
    obtain ⟨tail, rfl⟩ := List.head?_eq_some_iff.mp hhead
    have hrun : scan .absent d u false [carriageReturn, lineFeed] =
        ((turn .absent d u carriageReturn (some lineFeed)).state, none) := by
      rw [scan_absent_cons]
      simp only [List.head?_cons] at hskip ⊢
      rw [hskip]
      rfl
    refine ⟨[carriageReturn, lineFeed], ⟨?_, Or.inr (Or.inl rfl), by simp, hlen, ?_, ?_⟩, hrun⟩
    · rw [hskip]
      rfl
    · rw [List.nil_append, hrun]
      exact hrows
    · rw [List.nil_append, hrun, scan_absent_cons, hskip]
      rfl
  · have hone : (turn .absent d u ch tail.head?).skip = false := by
      rw [hskip]
      exact decide_eq_false hpair
    have hrun : scan .absent d u false [ch] = ((turn .absent d u ch tail.head?).state, none) := by
      rw [scan_absent_cons, List.head?_nil, turn_eq_of_skip hone]
      rfl
    refine ⟨[ch], ⟨?_, ?_, by simp, hlen, ?_, ?_⟩, hrun⟩
    · rw [hone]
      rfl
    · rw [hone]
      rcases hch with rfl | rfl
      · exact Or.inl rfl
      · exact Or.inr (Or.inr ⟨rfl, fun h => hpair ⟨rfl, h⟩⟩)
    · rw [List.nil_append, hrun]
      exact hrows
    · rw [List.nil_append, hrun, scan_absent_cons, hone]
      rfl

/-- The capped loop reads the text as the uncapped one does, to its end or up to the break
that completes row `n + 1`. -/
theorem Follows.scan (h : Follows n m u c) (d : Delimiter) (text : Text) (skip : Bool) :
    ((scan ⟨some n, some m⟩ d c skip text).2 = none →
      Follows n m (scan .absent d u skip text).1 (scan ⟨some n, some m⟩ d c skip text).1) ∧
    ∀ rest, (scan ⟨some n, some m⟩ d c skip text).2 = some rest →
      ∃ body brk, Completes d n u skip text body brk rest ∧
        Stopped n m (scan .absent d u skip (body ++ brk)).1
          (scan ⟨some n, some m⟩ d c skip text).1 := by
  induction text generalizing u c skip with
  | nil =>
      constructor
      · intro _
        exact h
      · intro rest hrest
        cases hrest
  | cons ch tail ih =>
      cases skip with
      | true =>
          obtain ⟨hend, hleft⟩ := ih h false
          refine ⟨hend, ?_⟩
          intro rest hrest
          obtain ⟨body, brk, hdone, hstop⟩ := hleft rest hrest
          exact ⟨ch :: body, brk, hdone.skip, hstop⟩
      | false =>
          obtain ⟨hskip, hturn⟩ := h.turn (d := d) ch tail.head?
          rw [Csv.scan]
          by_cases hon : (Csv.turn ⟨some n, some m⟩ d c ch tail.head?).goesOn = true
          · rw [if_pos hon] at hturn
            obtain ⟨hend, hleft⟩ := ih hturn (Csv.turn .absent d u ch tail.head?).skip
            rw [if_pos hon, hskip, scan_absent_cons]
            refine ⟨hend, ?_⟩
            intro rest hrest
            obtain ⟨body, brk, hdone, hstop⟩ := hleft rest hrest
            refine ⟨ch :: body, brk, hdone.cons, ?_⟩
            rw [List.cons_append, scan_absent_cons, hdone.turn_break]
            exact hstop
          · rw [if_neg hon] at hturn
            obtain ⟨hlen, hch, hpair, hstate, hstop⟩ := hturn
            obtain ⟨brk, hdone, hrun⟩ := Completes.here hlen hch hpair hstate
            rw [if_neg hon, hskip]
            constructor
            · intro hnone
              cases hnone
            · intro rest hrest
              obtain rfl := Option.some.inj hrest
              refine ⟨[], brk, hdone, ?_⟩
              rw [List.nil_append, hrun]
              exact hstop

theorem Follows.start : Follows n m {} {} :=
  ⟨rfl, List.take_nil.symm, rfl, rfl, by simp, Nat.zero_le n⟩

/-- The rows of a capped run are the uncapped ones, cut, and the flag says whether any were. -/
structure Cut (n m : Nat) (full : List (List Text)) (c : Scanner) : Prop where
  rows : c.rows = (full.take n).map (List.take m)
  truncated : c.truncated = true ↔ n < full.length ∨ ∃ r ∈ full.take n, m < r.length

theorem Stopped.cut {full : List (List Text)} (h : Stopped n m u c) (hu : u.rows <+: full) :
    Cut n m full c := by
  obtain ⟨more, rfl⟩ := hu
  have hmany := h.many
  refine ⟨?_, ?_⟩
  · rw [List.take_append_of_le_length (by omega)]
    exact h.rows
  · have hlen : n < (u.rows ++ more).length := by
      rw [List.length_append]
      omega
    simp only [h.truncated, hlen, true_or]

theorem Follows.cut (h : Follows n m u c) (hu : u.row = []) : Cut n m u.rows c := by
  have hall : u.rows.take n = u.rows := List.take_of_length_le h.few
  have hfew : ¬ n < u.rows.length := Nat.not_lt.mpr h.few
  refine ⟨?_, ?_⟩
  · rw [hall]
    exact h.rows
  · rw [h.truncated, hall, hu]
    simp only [hfew, List.length_nil, Nat.not_lt_zero, or_false, false_or]

theorem Follows.flush (hm : 0 < m) (h : Follows n m u c) :
    Cut n m (flush .absent u).rows (flush ⟨some n, some m⟩ c) := by
  have hlen : c.row.length = min m u.row.length := by rw [h.row, List.length_take]
  have hrest : (c.field ≠ [] ∨ 0 < c.row.length) ↔ (u.field ≠ [] ∨ 0 < u.row.length) := by
    have hpos : 0 < c.row.length ↔ 0 < u.row.length := by omega
    rw [h.field, hpos]
  unfold Csv.flush
  by_cases hu : u.field ≠ [] ∨ 0 < u.row.length
  · have hrow := h.pushRow
    rw [if_pos hu, if_pos (hrest.mpr hu)]
    by_cases hroom : u.rows.length < n
    · rw [if_pos hroom] at hrow
      exact hrow.2.cut rfl
    · rw [if_neg hroom] at hrow
      exact hrow.2.cut (List.prefix_refl _)
  · rw [if_neg hu, if_neg (fun hc => hu (hrest.mp hc))]
    apply h.cut
    simpa using (not_or.mp hu).2

/-- The law of the caps. -/
theorem parse_cut (hm : 0 < m) (d : Delimiter) (text : Text) :
    Cut n m (uncappedRows d text) (parse ⟨some n, some m⟩ d text) := by
  obtain ⟨hend, hleft⟩ := (Follows.start (n := n) (m := m)).scan d text false
  rw [uncappedRows_eq]
  unfold parse
  cases hunread : (Csv.scan ⟨some n, some m⟩ d {} false text).2 with
  | none => exact (hend hunread).flush hm
  | some rest =>
      obtain ⟨body, brk, hdone, hstop⟩ := hleft rest hunread
      apply hstop.cut
      rw [hdone.onward]
      exact (scan_absent_rows d rest _ false).trans (flush_absent_rows _)

end

/-! ### The preview -/

theorem finish_rows {rows : List (List Text)} {truncated : Bool} (h : rows ≠ []) :
    (finish rows truncated).header :: (finish rows truncated).rows = rows := by
  cases rows with
  | nil => exact absurd rfl h
  | cons header body => rfl

theorem finish_truncated (rows : List (List Text)) (truncated : Bool) :
    (finish rows truncated).truncated = truncated := by
  cases rows <;> rfl

/-- The preview shows the first 500 rows, each cut to its first 50 fields, says whether
anything was left out, and reads no further than the break that completes row 501. A text
without rows has an empty header. -/
theorem parseCsv_caps (d : Delimiter) (text : Text) :
    (uncappedRows d text ≠ [] →
      (parseCsv d text).header :: (parseCsv d text).rows =
        ((uncappedRows d text).take maxCsvRows).map (List.take maxCsvCols)) ∧
    (uncappedRows d text = [] → (parseCsv d text).header = [] ∧ (parseCsv d text).rows = []) ∧
    ((parseCsv d text).truncated = true ↔
      maxCsvRows < (uncappedRows d text).length ∨
        ∃ r ∈ (uncappedRows d text).take maxCsvRows, maxCsvCols < r.length) ∧
    ((scan .preview d {} false text).2 = none → (completeRows d text).length ≤ maxCsvRows) ∧
    ∀ rest, (scan .preview d {} false text).2 = some rest →
      ∃ body brk, text = body ++ (brk ++ rest) ∧ RowBreak brk rest ∧
        (completeRows d body).length = maxCsvRows ∧
        (completeRows d (body ++ brk)).length = maxCsvRows + 1 := by
  have hcut := parse_cut (n := maxCsvRows) (m := maxCsvCols) (by decide) d text
  obtain ⟨hend, hleft⟩ := (Follows.start (n := maxCsvRows) (m := maxCsvCols)).scan d text false
  unfold parseCsv
  refine ⟨?_, ?_, ?_, ?_, ?_⟩
  · intro hrows
    have hne : (parse .preview d text).rows ≠ [] := by
      rw [Caps.preview, hcut.rows]
      simpa [maxCsvRows] using hrows
    rw [finish_rows hne]
    exact hcut.rows
  · intro hrows
    have hnil : (parse .preview d text).rows = [] := by
      rw [Caps.preview, hcut.rows, hrows]
      rfl
    rw [hnil]
    exact ⟨rfl, rfl⟩
  · rw [finish_truncated]
    exact hcut.truncated
  · intro hunread
    exact (hend hunread).few
  · intro rest hunread
    obtain ⟨body, brk, hdone, _⟩ := hleft rest hunread
    exact ⟨body, brk, hdone.split, hdone.rowBreak, hdone.before, hdone.after⟩

/-- The empty text has no row to be the header. -/
theorem parseCsv_empty_header :
    ¬ ∀ (d : Delimiter) (text : Text),
      (parseCsv d text).header :: (parseCsv d text).rows =
        ((uncappedRows d text).take maxCsvRows).map (List.take maxCsvCols) := by
  intro h
  exact absurd (h .comma []) (by decide)

end PierGateway.Csv
