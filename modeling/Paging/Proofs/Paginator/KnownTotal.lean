import Paging.Proofs.Paginator.Tiling

/-!
The total of a source without a count. A numbered page then reports the rows before it together with those it
shows, and takes the rows before it on trust. They are all there exactly if the page does not start past the last
row; so a page that shows a row reports no more rows than there are, and an empty one may.
-/

namespace Paging

variable {ρ : Type} [Row ρ]

/-- A slice ends within the rows exactly if it starts there. -/
theorem slice_end_le_iff (offset size rows : Nat) : offset + min size (rows - offset) ≤ rows ↔ offset ≤ rows := by
  omega

theorem slice_end_of_pos {offset size rows : Nat} (h : 0 < min size (rows - offset)) :
    offset + min size (rows - offset) = min (offset + size) rows := by
  omega

namespace Table.Query

variable {query : Query ρ}

theorem numberedPageWithin_of_uncounted (huncounted : query.countable = false)
    (hfetches : query.failure ≠ some .execute) (number limit bound : Nat) :
    (numberedPageWithin query number limit bound).value.1 =
      let page := max number 1
      let size := clampPageSize limit bound
      let offset := pageOffset page size
      let items := ((SortKey.sort query.keys query.matching).drop offset).take size
      .ok ⟨items, offset + items.length, page, size, (offset + items.length + size - 1) / size⟩ := by
  rw [numberedPageWithin_of_fetching hfetches, count_of_uncounted huncounted]
  simp only [Except.map, Option.getD_none, NumberedPage.of_eq _ _ _ (clampPageSize_pos limit bound)]

/--
Without a count, the total of a numbered page is that of the rows before it and on it. It is a lower bound of the
number of rows exactly if the page does not start past the last one, and tells how many rows there are up to the
end of the page if it shows any.
-/
theorem uncounted_total_le_iff (huncounted : query.countable = false) (hfetches : query.failure ≠ some .execute)
    (number limit bound : UInt64) :
    let rows := query.matching
    let size := min (max limit.toNat 1) (min (max bound.toNat 1) 100)
    let offset := min ((max number.toNat 1 - 1) * size) (UInt64.size - 1)
    ∃ page, (numberedPageWithin query number.toNat limit.toNat bound.toNat).value.1 = .ok page ∧
      page.total = offset + page.items.length ∧
      (page.total ≤ rows.length ↔ offset ≤ rows.length) ∧
      (page.items ≠ [] → page.total = min (offset + size) rows.length) ∧
      (bound = 100 → (numberedPage query number limit).value.1 = .ok page) ∧
      ∀ paginator : Paginator, paginator.policy.maxLimit = bound →
        (paginator.numberedPage query number limit).value.1 = .ok page := by
  intro rows size offset
  have hlength := SortKey.length_slice_sort query.keys rows offset size
  have hpage := query.numberedPageWithin_of_uncounted huncounted hfetches number.toNat limit.toNat bound.toNat
  refine ⟨_, hpage, rfl, ?_, fun hshown => ?_, ?_, ?_⟩
  · change offset + (((SortKey.sort query.keys rows).drop offset).take size).length ≤ _ ↔ _
    rw [hlength]
    exact slice_end_le_iff offset size rows.length
  · have hpos : 0 < (((SortKey.sort query.keys rows).drop offset).take size).length := List.length_pos_iff.mpr hshown
    change offset + (((SortKey.sort query.keys rows).drop offset).take size).length = _
    rw [hlength] at hpos ⊢
    exact slice_end_of_pos hpos
  · rintro rfl
    exact hpage
  · rintro paginator rfl
    exact (congrArg Prod.fst (paginator.logging.value_deliver _)).trans hpage

/-- Of three rows in pages of two, the second page reports three rows, and the third one reports four. -/
theorem uncounted_total_boundedQuery :
    boundedQuery.withoutCount.countable = false ∧ boundedQuery.withoutCount.failure ≠ some .execute ∧
      boundedQuery.withoutCount.matching.length = 3 ∧
      (∃ page, (numberedPage boundedQuery.withoutCount 2 2).value.1 = .ok page ∧ page.total ≤ 3) ∧
      ∃ page, (numberedPage boundedQuery.withoutCount 3 2).value.1 = .ok page ∧ ¬page.total ≤ 3 := by
  have huncounted : boundedQuery.withoutCount.countable = false := rfl
  have hfetches : boundedQuery.withoutCount.failure ≠ some .execute := nofun
  have hrows : boundedQuery.withoutCount.matching.length = 3 := by decide
  obtain ⟨second, _, _, hsecond, _, hask, _⟩ := uncounted_total_le_iff huncounted hfetches 2 2 100
  obtain ⟨third, _, _, hthird, _, hbeyond, _⟩ := uncounted_total_le_iff huncounted hfetches 3 2 100
  rw [hrows] at hsecond hthird
  refine ⟨huncounted, hfetches, hrows, ⟨second, hask rfl, hsecond.mpr (by decide)⟩, third, hbeyond rfl, ?_⟩
  rw [hthird]
  decide

/-- Of no rows at all, the second page reports one. -/
theorem not_uncounted_total_le :
    ¬∀ (query : Query Json.Object) (number limit : UInt64) (page : NumberedPage Json.Object),
      query.countable = false → (numberedPage query number limit).value.1 = .ok page →
        page.total ≤ query.matching.length := by
  intro h
  have huncounted : (Table.query (ρ := Json.Object) ⟨[]⟩).withoutCount.countable = false := rfl
  have hpage := numberedPageWithin_of_uncounted huncounted nofun 2 1 100
  have htotal : 1 + _ ≤ 0 := h _ 2 1 _ huncounted hpage
  exact absurd (Nat.le_of_add_right_le htotal) (by decide)

end Table.Query

end Paging
