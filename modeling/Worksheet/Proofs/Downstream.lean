import Mathlib.Data.List.Nodup
import Worksheet.Apply
import Worksheet.Proofs.Order
import Worksheet.Proofs.Resolution

/-!
# Downstream of a change

The cells downstream of given cells are the formula cells that read one of
them, directly or not. Over the index of a grid they are all that can come to
resolve differently when only the given cells are written.
-/

namespace Worksheet

open Relation (TransGen)

namespace Dependencies

variable {index : Dependencies} {seen all : CellSet} {frontier changed order : List Cell}
  {c d : Cell}

def Follows (index : Dependencies) (reader cell : Cell) : Prop :=
  reader ∈ index.readersOf cell

/-- The seen cells together with all that follow the frontier, where what
follows a seen cell off the frontier has been seen. -/
structure Gathers (index : Dependencies) (seen : CellSet) (frontier : List Cell)
    (all : CellSet) : Prop where
  kept : ∀ c ∈ seen, c ∈ all
  closed : ∀ c d, index.Follows c d → d ∈ frontier ∨ d ∈ all ∧ d ∉ seen → c ∈ all
  sound : ∀ c ∈ all, c ∈ seen ∨ ∃ d ∈ frontier, TransGen index.Follows c d

theorem gathers_nil : index.Gathers seen [] seen where
  kept _ hc := hc
  closed c d _ hd := by
    rcases hd with hd | ⟨hd, hnot⟩
    · simp at hd
    · exact absurd hd hnot
  sound c hc := .inl hc

theorem Gathers.skip (h : index.Gathers seen frontier all)
    (hreaders : ∀ c, index.Follows c d → c ∈ seen) : index.Gathers seen (d :: frontier) all where
  kept := h.kept
  closed c e hfollows he := by
    rcases he with he | he
    · rcases List.mem_cons.mp he with rfl | he
      · exact h.kept c (hreaders c hfollows)
      · exact h.closed c e hfollows (.inl he)
    · exact h.closed c e hfollows (.inr he)
  sound c hc := by
    rcases h.sound c hc with hc | ⟨e, he, hfollows⟩
    · exact .inl hc
    · exact .inr ⟨e, List.mem_cons_of_mem d he, hfollows⟩

theorem Gathers.extend {more : CellSet} {readers : List Cell}
    (h : index.Gathers more (readers ++ frontier) all)
    (hmore : ∀ c, c ∈ more ↔ c ∈ seen ∨ index.Follows c d)
    (hreaders : ∀ c, c ∈ readers ↔ index.Follows c d ∧ c ∉ seen) :
    index.Gathers seen (d :: frontier) all where
  kept c hc := h.kept c ((hmore c).mpr (.inl hc))
  closed c e hfollows he := by
    rcases he with he | ⟨he, hnot⟩
    · rcases List.mem_cons.mp he with rfl | he
      · exact h.kept c ((hmore c).mpr (.inr hfollows))
      · exact h.closed c e hfollows (.inl (List.mem_append_right readers he))
    · by_cases hread : index.Follows e d
      · have hmem : e ∈ readers ++ frontier :=
          List.mem_append_left frontier ((hreaders e).mpr ⟨hread, hnot⟩)
        exact h.closed c e hfollows (.inl hmem)
      · have hnew : e ∉ more := fun hmem => ((hmore e).mp hmem).elim hnot hread
        exact h.closed c e hfollows (.inr ⟨he, hnew⟩)
  sound c hc := by
    have hhead : d ∈ d :: frontier := List.mem_cons_self
    rcases h.sound c hc with hc | ⟨e, he, hfollows⟩
    · exact ((hmore c).mp hc).imp_right fun hread => ⟨d, hhead, .single hread⟩
    · rcases List.mem_append.mp he with he | he
      · have hread : index.Follows e d := ((hreaders e).mp he).1
        exact .inr ⟨d, hhead, hfollows.tail hread⟩
      · exact .inr ⟨e, List.mem_cons_of_mem d he, hfollows⟩

/-- The frontier counts by its cells, in whatever order. -/
theorem Gathers.of_frontier {others : List Cell} (h : index.Gathers seen frontier all)
    (hothers : ∀ c, c ∈ others ↔ c ∈ frontier) : index.Gathers seen others all where
  kept := h.kept
  closed c d hfollows hd := h.closed c d hfollows (hd.imp_left (hothers d).mp)
  sound c hc := by
    rcases h.sound c hc with hc | ⟨d, hd, hfollows⟩
    · exact .inl hc
    · exact .inr ⟨d, (hothers d).mpr hd, hfollows⟩

theorem readersFrom_of_seen
    (h : ((index.readersOf d).filter fun reader => !seen.contains reader) = []) :
    index.readersFrom seen (d :: frontier) = index.readersFrom seen frontier := by
  rw [readersFrom]
  split <;> simp_all

theorem readersFrom_of_unseen {reader : Cell} {readers : List Cell}
    (h : ((index.readersOf d).filter fun reader => !seen.contains reader) = reader :: readers) :
    index.readersFrom seen (d :: frontier) =
      index.readersFrom ((seen.insert reader).insertMany readers)
        (reader :: readers ++ frontier) := by
  rw [readersFrom]
  split <;> simp_all

theorem gathers_readersFrom (index : Dependencies) (seen : CellSet) (frontier : List Cell) :
    index.Gathers seen frontier (index.readersFrom seen frontier) := by
  induction seen, frontier using readersFrom.induct index with
  | case1 seen =>
      rw [readersFrom]
      exact gathers_nil
  | case2 seen d frontier hnone ih =>
      rw [readersFrom_of_seen hnone]
      apply ih.skip
      intro c hread
      simpa using List.filter_eq_nil_iff.mp hnone c hread
  | case3 seen d frontier reader readers hsome ih =>
      have hreaders : ∀ c, c ∈ reader :: readers ↔ index.Follows c d ∧ c ∉ seen := by
        intro c
        rw [← hsome, List.mem_filter, Bool.not_eq_true', ← Bool.not_eq_true,
          Std.ExtTreeSet.contains_iff_mem, Follows]
      rw [readersFrom_of_unseen hsome]
      refine ih.extend (fun c => ?_) hreaders
      have hc := hreaders c
      rw [List.mem_cons] at hc
      rw [CellSet.mem_insertMany_iff, CellSet.mem_insert_iff]
      tauto

theorem Gathers.mem_iff (h : index.Gathers ∅ changed all) :
    c ∈ all ↔ ∃ d ∈ changed, TransGen index.Follows c d := by
  constructor
  · intro hc
    exact (h.sound c hc).resolve_left Std.ExtTreeSet.not_mem_empty
  · rintro ⟨d, hd, hfollows⟩
    induction hfollows using TransGen.head_induction_on with
    | single hread => exact h.closed _ d hread (.inl hd)
    | head hread _ ih => exact h.closed _ _ hread (.inr ⟨ih, Std.ExtTreeSet.not_mem_empty⟩)

theorem mem_readersFrom_iff :
    c ∈ index.readersFrom ∅ changed ↔ ∃ d ∈ changed, TransGen index.Follows c d :=
  (gathers_readersFrom index ∅ changed).mem_iff

theorem mem_downstream_iff {readers : List Cell} (h : index.downstream changed = .ok readers) :
    c ∈ readers ↔ index.contains c ∧ ∃ d ∈ changed, TransGen index.Follows c d := by
  simp only [downstream, Except.map_eq_ok_iff] at h
  obtain ⟨order, horder, rfl⟩ := h
  rw [List.mem_filter, ← Std.ExtTreeSet.mem_iff_contains, ← mem_readersFrom_iff]
  constructor
  · rintro ⟨hc, hread⟩
    exact ⟨(settled_of_orderOf horder).contains (List.mem_reverse.mpr hc), hread⟩
  · rintro ⟨hformula, hread⟩
    exact ⟨mem_order_of_orderOf horder hread hformula, hread⟩

theorem nodup_downstream {readers : List Cell} (h : index.downstream changed = .ok readers) :
    readers.Nodup := by
  simp only [downstream, Except.map_eq_ok_iff] at h
  obtain ⟨order, horder, rfl⟩ := h
  exact (List.nodup_reverse.mp (settled_of_orderOf horder).nodup).filter _

/-- No cell comes before a formula cell that it reads. -/
theorem pairwise_downstream {readers : List Cell} (h : index.downstream changed = .ok readers) :
    readers.Pairwise fun earlier later => ¬ TransGen index.Links earlier later := by
  simp only [downstream, Except.map_eq_ok_iff] at h
  obtain ⟨order, horder, rfl⟩ := h
  exact (List.pairwise_reverse.mp (settled_of_orderOf horder).pairwise).filter _

theorem Coherent.follows_eq (h : index.Coherent) : index.Follows = index.Refers := by
  funext reader cell
  exact propext (h.readers reader cell)

theorem follows_ofGrid (grid : Grid) : (ofGrid grid).Follows = grid.Reads := by
  funext reader cell
  exact propext mem_readersOf_ofGrid

theorem mem_downstream_ofGrid_iff {grid : Grid} {readers : List Cell}
    (h : (ofGrid grid).downstream changed = .ok readers) :
    c ∈ readers ↔ ∃ d ∈ changed, TransGen grid.Reads c d := by
  rw [mem_downstream_iff h, follows_ofGrid]
  refine and_iff_right_of_imp ?_
  rintro ⟨d, -, hreads⟩
  obtain ⟨e, hread, -⟩ := Relation.TransGen.head'_iff.mp hreads
  exact contains_ofGrid_of_reads hread

theorem transGen_links_ofGrid {grid : Grid} (hd : (ofGrid grid).contains d)
    (h : TransGen grid.Reads c d) : TransGen (ofGrid grid).Links c d :=
  (coherent_ofGrid grid).transGen_links hd (refers_ofGrid grid ▸ h)

theorem pairwise_downstream_ofGrid {grid : Grid} {readers : List Cell}
    (h : (ofGrid grid).downstream changed = .ok readers) :
    readers.Pairwise fun earlier later => ¬ TransGen grid.Reads earlier later := by
  apply (pairwise_downstream h).imp_of_mem
  intro earlier later _ hlater hlinks hreads
  have hformula : (ofGrid grid).contains later := ((mem_downstream_iff h).mp hlater).1
  exact hlinks (transGen_links_ofGrid hformula hreads)

end Dependencies

namespace Value

variable {before after : Grid} {changed : List Cell} {c : Cell}

theorem resolve_eq_of_not_reaches {v : Value} (h : Block.WrittenAt changed before after)
    (hreach : ∀ d ∈ changed, ¬ v.Reaches before d) : v.resolve after = v.resolve before := by
  rw [resolve_eq_evaluate, resolve_eq_evaluate]
  exact evaluate_eq_of_agree h.rows h.columns fun d hd => h.stored d fun hmem => hreach d hmem hd

/-- A cell is out of reach of a change if it neither lies in it nor reads into
it, directly or not. -/
theorem resolve_eq_of_writtenAt (h : Block.WrittenAt changed before after) (hc : c ∉ changed)
    (hreads : ∀ d ∈ changed, ¬ TransGen before.Reads c d) :
    (Value.reference c).resolve after = (Value.reference c).resolve before := by
  apply resolve_eq_of_not_reaches h
  intro d hmem hd
  rw [reaches_reference_iff, Relation.reflTransGen_iff_eq_or_transGen] at hd
  rcases hd with rfl | hd
  · exact hc hmem
  · exact hreads d hmem hd

/-- Whatever is written into some cells, all other cells that are not
downstream of them resolve as before. -/
theorem resolve_eq_of_not_mem_downstream {readers : List Cell}
    (hreaders : (Dependencies.ofGrid before).downstream changed = .ok readers)
    (h : Block.WrittenAt changed before after) (hc : c ∉ changed) (hnot : c ∉ readers) :
    (Value.reference c).resolve after = (Value.reference c).resolve before := by
  apply resolve_eq_of_writtenAt h hc
  intro d hd hreads
  exact hnot ((Dependencies.mem_downstream_ofGrid_iff hreaders).mpr ⟨d, hd, hreads⟩)

theorem resolve_loop_of_written_copyBesideLoop :
    (Dependencies.ofGrid Grid.copyBesideLoop).downstream [⟨0, 0⟩] = .ok [⟨0, 1⟩] ∧
      (Value.reference ⟨0, 2⟩).resolve
          (Grid.copyBesideLoop.store ((∅ : CellMap Simple).insert ⟨0, 0⟩ .null)) =
        (Value.reference ⟨0, 2⟩).resolve Grid.copyBesideLoop := by
  have hreaders : (Dependencies.ofGrid Grid.copyBesideLoop).downstream [⟨0, 0⟩] =
      .ok [⟨0, 1⟩] := by cbv
  refine ⟨hreaders, resolve_eq_of_not_mem_downstream hreaders ⟨rfl, rfl, ?_⟩ ?_ ?_⟩
  · intro c hc
    rw [List.mem_singleton] at hc
    simp [Grid.get?_store, CellMap.getElem?_insert, hc]
  · decide
  · decide

end Value

end Worksheet
