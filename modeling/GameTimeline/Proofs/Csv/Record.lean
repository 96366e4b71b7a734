import GameTimeline.Csv.Record
import Mathlib.Data.List.Basic

namespace GameTimeline.Csv

namespace Scan

variable {s : Scan} {c : List UInt8} {b : UInt8}

theorem plain_of_not_special (hb : isSpecial b = false) : s.plain b = s.put .bare b := by
  simp only [isSpecial, Bool.or_eq_false_iff, decide_eq_false_iff_not] at hb
  rw [plain, if_neg hb.1.1, hb.2]
  rfl

theorem step_plain (hplace : s.place ≠ .quoted) (hquote : b ≠ quote)
    (hbetween : s.place = .between → isLineEnd b = false) : s.step b = s.plain b := by
  rw [step]
  cases h : s.place with
  | between => simp [hquote, hbetween h]
  | start => simp [hquote]
  | bare => rfl
  | quoted => exact absurd h hplace
  | afterQuote => simp [hquote]

theorem foldl_bare (hc : c.any isSpecial = false) (hplace : s.place = .bare) :
    c.foldl step s = { s with bytes := c.reverse ++ s.bytes } := by
  induction c generalizing s with
  | nil => rfl
  | cons b c ih =>
      obtain ⟨hb, hc⟩ := Bool.or_eq_false_iff.mp hc
      have hstep : s.step b = s.put .bare b := by
        rw [step, hplace]
        exact plain_of_not_special hb
      rw [List.foldl_cons, hstep, ih hc rfl]
      simp [put, hplace]

theorem foldl_doubleQuotes (hplace : s.place = .quoted) :
    (doubleQuotes c).foldl step s = { s with bytes := c.reverse ++ s.bytes } := by
  induction c generalizing s with
  | nil => rfl
  | cons b c ih =>
      have hput : (if b = quote then [quote, quote] else [b]).foldl step s = s.put .quoted b := by
        split
        · rename_i hb
          simp [step, hplace, put, hb]
        · rename_i hb
          simp [step, hplace, hb]
      rw [doubleQuotes, List.flatMap_cons, List.foldl_append, hput]
      refine (ih rfl).trans ?_
      simp [put, hplace]

theorem foldl_cell (hplace : s.place = .between ∨ s.place = .start) (hbytes : s.bytes = []) :
    ∃ place, (cell c).foldl step s = { s with place, bytes := c.reverse } ∧ place ≠ .quoted ∧
      (place = .between → s.place = .between ∧ c = []) := by
  rw [cell]
  split
  · refine ⟨.afterQuote, ?_, by decide, by simp⟩
    have hopen : s.step quote = { s with place := .quoted } := by
      rcases hplace with h | h <;> simp [step, h, quote, isLineEnd]
    rw [List.cons_append, List.foldl_cons, hopen, List.foldl_append, foldl_doubleQuotes rfl, hbytes]
    simp [step]
  · rename_i hbare
    cases c with
    | nil =>
        refine ⟨s.place, ?_, ?_, fun h => ⟨h, rfl⟩⟩
        · cases s
          cases hbytes
          rfl
        · rcases hplace with h | h <;> simp [h]
    | cons b c =>
        obtain ⟨hb, hc⟩ := Bool.or_eq_false_iff.mp (Bool.eq_false_iff.mpr hbare)
        have hquote : b ≠ quote := by
          rintro rfl
          cases hb
        have hend : isLineEnd b = false := (Bool.or_eq_false_iff.mp hb).2
        have hplain : s.step b = s.put .bare b := by
          rw [step_plain (by rcases hplace with h | h <;> simp [h]) hquote fun _ => hend,
            plain_of_not_special hb]
        refine ⟨.bare, ?_, by decide, by simp⟩
        rw [List.foldl_cons, hplain, foldl_bare hc rfl]
        simp [put, hbytes]

theorem foldl_cell_comma (hplace : s.place = .between ∨ s.place = .start) (hbytes : s.bytes = []) :
    (cell c ++ [comma]).foldl step s = ⟨.start, [], c :: s.cells, s.rows⟩ := by
  obtain ⟨place, hcell, hquoted, -⟩ := foldl_cell (c := c) hplace hbytes
  rw [List.foldl_append, hcell, List.foldl_cons, List.foldl_nil,
    step_plain hquoted (by decide) fun _ => by decide]
  simp [plain, endCell]

theorem foldl_cell_end (hplace : s.place = .between ∧ c ≠ [] ∨ s.place = .start)
    (hbytes : s.bytes = []) :
    (cell c ++ [0x0a]).foldl step s = ⟨.between, [], [], (c :: s.cells).reverse :: s.rows⟩ := by
  obtain ⟨place, hcell, hquoted, hbetween⟩ := foldl_cell (c := c) (hplace.imp_left And.left) hbytes
  have hinside : place ≠ .between := by
    intro h
    obtain ⟨hs, hc⟩ := hbetween h
    rcases hplace with ⟨-, hne⟩ | hstart
    · exact hne hc
    · rw [hs] at hstart
      cases hstart
  rw [List.foldl_append, hcell, List.foldl_cons, List.foldl_nil,
    step_plain hquoted (by decide) fun h => absurd h hinside]
  simp [plain, endRow, isLineEnd, comma]

theorem foldl_cells (cs : List (List UInt8))
    (hplace : s.place = .between ∧ c :: cs ≠ [[]] ∨ s.place = .start) (hbytes : s.bytes = []) :
    (List.intercalate [comma] ((c :: cs).map cell) ++ [0x0a]).foldl step s =
      ⟨.between, [], [], (s.cells.reverse ++ c :: cs) :: s.rows⟩ := by
  induction cs generalizing s c with
  | nil =>
      have hcell := foldl_cell_end (c := c) (hplace.imp_left fun h => ⟨h.1, by simpa using h.2⟩) hbytes
      simpa using hcell
  | cons d cs ih =>
      have hcell := foldl_cell_comma (c := c) (hplace.imp_left And.left) hbytes
      have hrest := ih (s := ⟨.start, [], c :: s.cells, s.rows⟩) (c := d) (.inr rfl) rfl
      simp only [List.map_cons, List.intercalate_cons_cons, List.append_assoc] at hrest ⊢
      rw [← List.append_assoc, List.foldl_append, hcell, hrest]
      simp

theorem foldl_record {r : List (List UInt8)} (hr : r ≠ []) (hplace : s.place = .between)
    (hbytes : s.bytes = []) (hcells : s.cells = []) :
    (record r).foldl step s = ⟨.between, [], [], r :: s.rows⟩ := by
  by_cases hsingle : r = [[]]
  · obtain ⟨place, bytes, cells, rows⟩ := s
    subst hsingle hplace hbytes hcells
    rfl
  · cases r with
    | nil => exact absurd rfl hr
    | cons c cs =>
        rw [record, foldl_cells cs (.inl ⟨hplace, hsingle⟩) hbytes, hcells]
        · rfl
        · exact hsingle

theorem foldl_render {rows : List (List (List UInt8))} (h : ∀ r ∈ rows, r ≠ [])
    (done : List (List (List UInt8))) :
    (render rows).foldl step ⟨.between, [], [], done⟩ = ⟨.between, [], [], rows.reverse ++ done⟩ := by
  induction rows generalizing done with
  | nil => rfl
  | cons r rows ih =>
      rw [render, List.flatMap_cons, List.foldl_append,
        foldl_record (h r (List.mem_cons_self ..)) rfl rfl rfl]
      refine (ih (fun q hq => h q (List.mem_cons_of_mem _ hq)) _).trans ?_
      simp

end Scan

theorem parse_render {rows : List (List (List UInt8))} (h : ∀ r ∈ rows, r ≠ [])
    (hmark : Text.dropByteOrderMark (render rows) = render rows) : parse (render rows) = rows := by
  rw [parse, hmark, Scan.new, Scan.foldl_render h]
  simp [Scan.finish]

end GameTimeline.Csv
