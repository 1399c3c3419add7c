import Endpoints.Proofs.ForStd

/-!
# Lists by places

A place is a list of numbers: the number of a part, then that of a part of it, and so on. A
`Listing` of what stands at places has every place once and follows the order of the places, so that
a list which a walk collects can be described without the walk. `Listing.filter`,
`Listing.filterMap` and `Listing.flatMap` give the listings of the lists that the program makes from
others.
-/

namespace Endpoints

/-- The items are all that stands at places, in the order of the places. Every place counts, so an
item that stands at two places is listed twice. -/
def Listing {α : Type} (Stands : List Nat → α → Prop) (items : List α) : Prop :=
  ∃ entries : List (List Nat × α), entries.map (·.2) = items ∧
    entries.Pairwise (fun a b => List.Lex (· < ·) a.1 b.1) ∧
      ∀ place item, (place, item) ∈ entries ↔ Stands place item

namespace Listing

variable {α β : Type} {Stands : List Nat → α → Prop}

theorem congr {Other : List Nat → α → Prop} {items : List α} (h : Listing Stands items)
    (hiff : ∀ place item, Stands place item ↔ Other place item) : Listing Other items := by
  obtain ⟨entries, hitems, hordered, hmem⟩ := h
  exact ⟨entries, hitems, hordered, fun place item => (hmem place item).trans (hiff place item)⟩

theorem singleton (item : α) : Listing (fun place other => place = [] ∧ other = item) [item] :=
  ⟨[([], item)], rfl, List.pairwise_singleton _ _, by simp⟩

theorem of_isEmpty (h : ∀ place item, ¬ Stands place item) : Listing Stands [] :=
  ⟨[], rfl, List.Pairwise.nil, by simp [h]⟩

/-- What is made of some of the items stands at their places. -/
theorem filterMap {items : List α} (h : Listing Stands items) (f : α → Option β) :
    Listing (fun place made => ∃ item, Stands place item ∧ f item = some made)
      (items.filterMap f) := by
  obtain ⟨entries, rfl, hordered, hmem⟩ := h
  refine ⟨entries.filterMap fun entry => (f entry.2).map (entry.1, ·), ?_, ?_, ?_⟩
  · rw [List.map_filterMap, List.filterMap_map]
    simp [Function.comp_def]
  · refine hordered.filterMap _ fun first second hlt made hmade other hother => ?_
    -- The places stay as they are.
    obtain ⟨_, _, rfl⟩ := Option.map_eq_some_iff.1 hmade
    obtain ⟨_, _, rfl⟩ := Option.map_eq_some_iff.1 hother
    exact hlt
  · intro place made
    simp [List.mem_filterMap, hmem]

theorem filter {items : List α} (h : Listing Stands items) (p : α → Bool) :
    Listing (fun place item => Stands place item ∧ p item = true) (items.filter p) := by
  have hguard := h.filterMap (Option.guard p)
  rw [List.filterMap_eq_filter] at hguard
  refine hguard.congr fun place item => ?_
  simp [Option.guard_eq_some_iff]

/-- Parts that are listed by their places, one after the other: the number of a part comes first. -/
theorem flatMap {part : α → List β} {StandsIn : α → List Nat → β → Prop} {parts : List α}
    (h : ∀ a ∈ parts, Listing (StandsIn a) (part a)) :
    Listing (fun place item => ∃ number rest a, place = number :: rest ∧
      parts[number]? = some a ∧ StandsIn a rest item) (parts.flatMap part) := by
  -- From the end, so that the numbers of the parts before the last one stay as they are.
  induction parts using List.reverseRecOn with
  | nil => exact of_isEmpty (by simp)
  | append_singleton parts last ih =>
    obtain ⟨entries, hitems, hordered, hmem⟩ := ih fun a ha => h a (by simp [ha])
    obtain ⟨added, hadded, haddedOrdered, haddedMem⟩ := h last (by simp)
    refine ⟨entries ++ added.map fun entry => (parts.length :: entry.1, entry.2), ?_, ?_, ?_⟩
    · simp [hitems, ← hadded, Function.comp_def]
    · refine List.pairwise_append.2 ⟨hordered, ?_, ?_⟩
      · exact haddedOrdered.map _ fun _ _ hlt => .cons hlt
      · -- A place in an earlier part has a smaller number in front.
        rintro ⟨place, item⟩ hentry _ hlast
        obtain ⟨number, rest, a, rfl, hnumber, -⟩ := (hmem place item).1 hentry
        obtain ⟨entry, -, rfl⟩ := List.mem_map.1 hlast
        exact .rel (List.getElem?_eq_some_iff.1 hnumber).1
    · intro place item
      rw [List.mem_append, hmem, List.mem_map]
      simp only [List.getElem?_concat_eq_some]
      constructor
      · rintro (⟨number, rest, a, rfl, hnumber, hstands⟩ | ⟨entry, hentry, heq⟩)
        · exact ⟨number, rest, a, rfl, .inl hnumber, hstands⟩
        · obtain ⟨rfl, rfl⟩ := Prod.mk.inj heq
          exact ⟨_, _, last, rfl, .inr ⟨rfl, rfl⟩, (haddedMem _ _).1 hentry⟩
      · rintro ⟨number, rest, a, rfl, hnumber | ⟨rfl, rfl⟩, hstands⟩
        · exact .inl ⟨number, rest, a, rfl, hnumber, hstands⟩
        · exact .inr ⟨(rest, item), (haddedMem _ _).2 hstands, rfl⟩

/-- A list lists its own items, each at the place of its number. -/
theorem of_getElem? (items : List α) :
    Listing (fun place item => ∃ number, place = [number] ∧ items[number]? = some item) items := by
  have hsingle := @flatMap α α (fun a => [a]) _ items fun a _ => singleton a
  rw [List.flatMap_singleton'] at hsingle
  refine hsingle.congr fun place item => ⟨?_, ?_⟩
  · rintro ⟨number, _, _, rfl, hnumber, rfl, rfl⟩
    exact ⟨number, rfl, hnumber⟩
  · rintro ⟨number, rfl, hnumber⟩
    exact ⟨number, [], item, rfl, hnumber, rfl, rfl⟩

end Listing

end Endpoints
