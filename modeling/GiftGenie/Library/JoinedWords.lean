import Mathlib.Computability.Language

/-!
# Words joined by a separator

Two ways in which regular expressions repeat a word with a separator between the repetitions, and the
words that they stand for.

* `mem_mul_kstar_iff`: `L (sep L)*` are the words of `L`, one at least, joined by `sep`.
* `mem_kstar_mul_iff`: `(L sep)* L` are the same.
* `mem_mul_kstar_mul_iff`: `(L sep)+ L` are two at least.
-/

set_option autoImplicit false

namespace GiftGenie.Library.JoinedWords

open scoped Computability

variable {α : Type*} {L : Language α} {sep w : List α}

/-- The repetitions of what `f` makes of the words of `L`. -/
theorem mem_kstar_of_map {M : Language α} {f : List α → List α}
    (hM : ∀ v, v ∈ M ↔ ∃ u ∈ L, f u = v) :
    w ∈ M∗ ↔ ∃ us : List (List α), (∀ u ∈ us, u ∈ L) ∧ w = (us.map f).flatten := by
  rw [Language.mem_kstar]
  constructor
  · intro h
    obtain ⟨vs, rfl, hvs⟩ := h
    induction vs with
    | nil => exact ⟨[], fun u hu => absurd hu List.not_mem_nil, rfl⟩
    | cons v vs ih =>
      obtain ⟨us, hus, hflat⟩ := ih fun y hy => hvs y (List.mem_cons_of_mem v hy)
      obtain ⟨u, hu, rfl⟩ := (hM v).mp (hvs v List.mem_cons_self)
      refine ⟨u :: us, List.forall_mem_cons.mpr ⟨hu, hus⟩, ?_⟩
      rw [List.map_cons, List.flatten_cons, List.flatten_cons, hflat]
  · intro h
    obtain ⟨us, hus, rfl⟩ := h
    refine ⟨us.map f, rfl, fun y hy => ?_⟩
    obtain ⟨u, hu, rfl⟩ := List.mem_map.mp hy
    exact (hM (f u)).mpr ⟨u, hus u hu, rfl⟩

theorem mem_singleton_mul {v : List α} : v ∈ ({sep} : Language α) * L ↔ ∃ u ∈ L, sep ++ u = v := by
  rw [Language.mem_mul]
  constructor
  · intro h
    obtain ⟨s, rfl, u, hu, huv⟩ := h
    exact ⟨u, hu, huv⟩
  · intro h
    obtain ⟨u, hu, huv⟩ := h
    exact ⟨sep, rfl, u, hu, huv⟩

theorem mem_mul_singleton {v : List α} : v ∈ L * ({sep} : Language α) ↔ ∃ u ∈ L, u ++ sep = v := by
  rw [Language.mem_mul]
  constructor
  · intro h
    obtain ⟨u, hu, s, rfl, huv⟩ := h
    exact ⟨u, hu, huv⟩
  · intro h
    obtain ⟨u, hu, huv⟩ := h
    exact ⟨u, hu, sep, rfl, huv⟩

/-- The first word, and every other one after a separator. -/
theorem intercalate_cons (sep u : List α) (us : List (List α)) :
    sep.intercalate (u :: us) = u ++ (us.map (sep ++ ·)).flatten := by
  induction us generalizing u with
  | nil => simp
  | cons v vs ih => rw [List.intercalate_cons_cons, ih, List.map_cons, List.flatten_cons,
      List.append_assoc, List.append_assoc]

/-- Every word but the last one before a separator. -/
theorem intercalate_concat (sep u : List α) (us : List (List α)) :
    sep.intercalate (us ++ [u]) = (us.map (· ++ sep)).flatten ++ u := by
  induction us with
  | nil => simp
  | cons v vs ih =>
    have hne : vs ++ [u] ≠ [] := List.append_ne_nil_of_right_ne_nil vs (List.cons_ne_nil u [])
    rw [List.cons_append, List.intercalate_cons_of_ne_nil hne, ih, List.map_cons, List.flatten_cons,
      List.append_assoc, List.append_assoc, List.append_assoc]

theorem mem_mul_kstar_iff :
    w ∈ L * (({sep} : Language α) * L)∗ ↔
      ∃ us : List (List α), us ≠ [] ∧ (∀ u ∈ us, u ∈ L) ∧ w = sep.intercalate us := by
  rw [Language.mem_mul]
  constructor
  · intro h
    obtain ⟨u, hu, rest, hrest, rfl⟩ := h
    obtain ⟨us, hus, rfl⟩ := (mem_kstar_of_map fun _ => mem_singleton_mul).mp hrest
    exact ⟨u :: us, List.cons_ne_nil u us, List.forall_mem_cons.mpr ⟨hu, hus⟩,
      (intercalate_cons sep u us).symm⟩
  · intro h
    obtain ⟨us, hne, hus, rfl⟩ := h
    obtain ⟨u, us, rfl⟩ := List.exists_cons_of_ne_nil hne
    obtain ⟨hu, hus⟩ := List.forall_mem_cons.mp hus
    exact ⟨u, hu, _, (mem_kstar_of_map fun _ => mem_singleton_mul).mpr ⟨us, hus, rfl⟩,
      (intercalate_cons sep u us).symm⟩

theorem mem_kstar_mul_iff :
    w ∈ (L * ({sep} : Language α))∗ * L ↔
      ∃ us : List (List α), us ≠ [] ∧ (∀ u ∈ us, u ∈ L) ∧ w = sep.intercalate us := by
  rw [Language.mem_mul]
  constructor
  · intro h
    obtain ⟨rest, hrest, u, hu, rfl⟩ := h
    obtain ⟨us, hus, rfl⟩ := (mem_kstar_of_map fun _ => mem_mul_singleton).mp hrest
    refine ⟨us ++ [u], List.append_ne_nil_of_right_ne_nil us (List.cons_ne_nil u []), ?_,
      (intercalate_concat sep u us).symm⟩
    exact List.forall_mem_append.mpr ⟨hus, List.forall_mem_singleton.mpr hu⟩
  · intro h
    obtain ⟨us, hne, hus, rfl⟩ := h
    obtain ⟨us, u, rfl⟩ := (List.eq_nil_or_concat' us).resolve_left hne
    obtain ⟨hus, hu⟩ := List.forall_mem_append.mp hus
    exact ⟨_, (mem_kstar_of_map fun _ => mem_mul_singleton).mpr ⟨us, hus, rfl⟩, u,
      hu u List.mem_cons_self, (intercalate_concat sep u us).symm⟩

theorem mem_mul_kstar_mul_iff :
    w ∈ L * ({sep} : Language α) * (L * {sep})∗ * L ↔
      ∃ us : List (List α), 2 ≤ us.length ∧ (∀ u ∈ us, u ∈ L) ∧ w = sep.intercalate us := by
  rw [mul_assoc, mul_assoc, Language.mem_mul]
  constructor
  · intro h
    obtain ⟨u, hu, rest, hrest, rfl⟩ := h
    obtain ⟨s, rfl, tail, htail, rfl⟩ := Language.mem_mul.mp hrest
    obtain ⟨us, hne, hus, rfl⟩ := mem_kstar_mul_iff.mp htail
    refine ⟨u :: us, ?_, List.forall_mem_cons.mpr ⟨hu, hus⟩, ?_⟩
    · have hpos : 0 < us.length := List.length_pos_iff.mpr hne
      rw [List.length_cons]
      omega
    · rw [List.intercalate_cons_of_ne_nil hne, List.append_assoc]
  · intro h
    obtain ⟨us, hlen, hus, rfl⟩ := h
    match us, hlen with
    | u :: v :: us, _ =>
      obtain ⟨hu, hus⟩ := List.forall_mem_cons.mp hus
      refine ⟨u, hu, sep ++ sep.intercalate (v :: us), ?_, ?_⟩
      · exact Language.append_mem_mul rfl
          (mem_kstar_mul_iff.mpr ⟨v :: us, List.cons_ne_nil v us, hus, rfl⟩)
      · rw [List.intercalate_cons_cons, List.append_assoc]

end GiftGenie.Library.JoinedWords
