import GiftGenie.ListHistories

/-!
# The quiz

SUBMIT subscribes to the collection `Products`, and every snapshot goes through `_process`: for each
product and each picked option, the id of the product is listed if the option occurs in the product's
`Categories`.  Then one `updateRecommended` is started for each listed id.

An id is listed once for every option that matches, and `updateRecommended` toggles.  So from an empty
list the quiz recommends the matching products exactly if none of them matches an even number of
options (`recommends_iff`); and processing the same snapshot again changes nothing exactly if every
product matches an even number of them (`idempotent_iff`).
-/

set_option autoImplicit false

namespace GiftGenie.Quiz

open GiftGenie.Library GiftGenie.Firestore GiftGenie.ListTransactions GiftGenie.ListHistories

/-- A document of a snapshot; `data` is `none` where `exists` is false. -/
structure DocumentSnapshot where
  documentID : String
  data : Option Doc

/-- The options on the page. -/
def options : List String :=
  ["Men's Clothing", "Women's Clothing", "Jewelry", "Games", "Electronics", "Home", "Movies",
    "Sports & Outdoors", "Video Games", "Books"]

/-- `update_category`: what an option is called in `Categories`. -/
def updateCategory (cat : String) : String :=
  let cat := if cat = "Men's Clothing" then "Men" else cat
  let cat := if cat = "Women's Clothing" then "Women" else cat
  if cat = "Jewelry" then "> Jewelry >" else cat

/-- `s.contains(part)` on a variable of type `String`. -/
def stringContains (s : DString) (part : String) : Except DartError Bool :=
  match s with
  | some s => .ok (decide (part.toList <:+: s.toList))
  | none => .error .noSuchMethod

/-- The inner loop of `_process`, over the picked options. -/
def pickedIds (s : DString) (id : String) : List String → Except DartError (List String)
  | [] => .ok []
  | option :: picked => do
      let hit ← stringContains s (updateCategory option)
      let ids ← pickedIds s id picked
      return if hit ∧ id ≠ "" then id :: ids else ids

/-- `_process`: the ids that it passes to `_handleRecommendedListChanged`. -/
def process (picked : List String) : List DocumentSnapshot → Except DartError (List String)
  | [] => .ok []
  | ds :: rest =>
      match ds.data with
      | none => process picked rest
      | some m => do
          let s ← asString (field m "Categories")
          let ids ← pickedIds s ds.documentID picked
          let recAsins ← process picked rest
          return ids ++ recAsins

/-- The ids for which a snapshot starts transactions: none where `_process` throws. -/
def submitted (picked : List String) (snapshot : List DocumentSnapshot) : List String :=
  match process picked snapshot with
  | .ok ids => ids
  | .error _ => []

/-- `_handleRecommendedListChanged`, the transactions. -/
def handleRecommendedListChanged (uid : String) (ids : List String) : List ListCall :=
  ids.map fun productID => { id := uid, op := .updateRecommended (some productID) }

/-! ### Which ids are listed -/

/-- The categories of a product, if they are a text. -/
def categories (ds : DocumentSnapshot) : DString :=
  ds.data.bind fun m =>
    match field m "Categories" with
    | .str s => some s
    | _ => none

/-- The option occurs in the categories of the product. -/
def Matches (ds : DocumentSnapshot) (option : String) : Prop :=
  ∃ s ∈ categories ds, (updateCategory option).toList <:+: s.toList

instance (ds : DocumentSnapshot) (option : String) : Decidable (Matches ds option) :=
  inferInstanceAs (Decidable (∃ s ∈ categories ds, _))

/-- How many of the picked options match. -/
def matchCount (picked : List String) (ds : DocumentSnapshot) : ℕ :=
  picked.countP fun option => Matches ds option

/-- How many pairs of a product with this id and a picked option match. -/
def hits (picked : List String) (id : String) (snapshot : List DocumentSnapshot) : ℕ :=
  ((snapshot.filter (·.documentID = id)).map (matchCount picked)).sum

/-- The product has a text under `Categories`. -/
def Readable (ds : DocumentSnapshot) : Prop := ds.data ≠ none → categories ds ≠ none

theorem field_of_categories {ds : DocumentSnapshot} {m : Doc} (hdata : ds.data = some m) {s : String}
    (hs : categories ds = some s) : field m "Categories" = .str s := by
  rw [categories, hdata, Option.bind_some] at hs
  split at hs
  · rename_i t ht
    rw [ht, Option.some.inj hs]
  · exact nomatch hs

theorem pickedIds_eq (s id : String) (picked : List String) :
    pickedIds (some s) id picked = .ok (if id = "" then [] else List.replicate
      (picked.countP fun option => (updateCategory option).toList <:+: s.toList) id) := by
  induction picked with
  | nil => simp [pickedIds]
  | cons option picked ih =>
    rw [pickedIds, stringContains, ok_bind, ih, ok_bind]
    by_cases hid : id = ""
    · simp [hid]
      rfl
    · by_cases hit : (updateCategory option).toList <:+: s.toList
      · simp [hid, hit, List.replicate_succ]
        rfl
      · simp [hid, hit]
        rfl

theorem matchCount_none {picked : List String} {ds : DocumentSnapshot} (h : ds.data = none) :
    matchCount picked ds = 0 := by
  refine List.countP_eq_zero.mpr fun option _ => ?_
  simp [Matches, categories, h]

theorem matchCount_some {picked : List String} {ds : DocumentSnapshot} {s : String}
    (hs : categories ds = some s) :
    matchCount picked ds =
      picked.countP fun option => (updateCategory option).toList <:+: s.toList := by
  refine List.countP_congr fun option _ => ?_
  simp [Matches, hs]

theorem hits_cons (picked : List String) (id : String) (ds : DocumentSnapshot)
    (rest : List DocumentSnapshot) :
    hits picked id (ds :: rest) =
      (if ds.documentID = id then matchCount picked ds else 0) + hits picked id rest := by
  by_cases h : ds.documentID = id
  · simp [hits, h]
  · simp [hits, h]

/-- Each readable product is listed once for every picked option that matches. -/
theorem count_process {picked : List String} {snapshot : List DocumentSnapshot}
    (hread : ∀ ds ∈ snapshot, Readable ds) :
    ∃ ids, process picked snapshot = .ok ids ∧
      ∀ id, ids.count id = if id = "" then 0 else hits picked id snapshot := by
  induction snapshot with
  | nil => exact ⟨[], rfl, fun id => by simp [hits]⟩
  | cons ds rest ih =>
    obtain ⟨ids, hids, hcount⟩ := ih fun d hd => hread d (List.mem_cons_of_mem ds hd)
    cases hdata : ds.data with
    | none =>
      refine ⟨ids, ?_, fun id => ?_⟩
      · rw [process, hdata]
        exact hids
      · rw [hcount, hits_cons, matchCount_none hdata, ite_self, Nat.zero_add]
    | some m =>
      have hsome : ds.data ≠ none := hdata ▸ Option.some_ne_none m
      obtain ⟨s, hs⟩ := Option.ne_none_iff_exists'.mp (hread ds List.mem_cons_self hsome)
      have hpicked := pickedIds_eq s ds.documentID picked
      rw [← matchCount_some hs] at hpicked
      have hprocess : process picked (ds :: rest) = .ok ((if ds.documentID = "" then []
          else List.replicate (matchCount picked ds) ds.documentID) ++ ids) := by
        rw [process, hdata]
        show (asString (field m "Categories") >>= _) = _
        rw [field_of_categories hdata hs, asString, ok_bind, hpicked, ok_bind, hids, ok_bind]
        rfl
      refine ⟨_, hprocess, fun id => ?_⟩
      rw [List.count_append, hcount, hits_cons]
      by_cases hempty : ds.documentID = ""
      · by_cases hid : id = ""
        · simp [hid, hempty]
        · simp [hid, hempty, Ne.symm hid]
      · by_cases hid : id = ""
        · simp [hid, hempty, List.count_replicate]
        · simp [hid, hempty, List.count_replicate]

theorem count_submitted {picked : List String} {snapshot : List DocumentSnapshot}
    (hread : ∀ ds ∈ snapshot, Readable ds) (id : String) :
    (submitted picked snapshot).count id = if id = "" then 0 else hits picked id snapshot := by
  obtain ⟨ids, hids, hcount⟩ : ∃ ids, process picked snapshot = .ok ids ∧ _ := count_process hread
  rw [submitted, hids]
  exact hcount id

/-- `_process` gets past a product without categories only if nothing is picked. -/
theorem picked_of_unreadable {picked : List String} {snapshot : List DocumentSnapshot}
    {ids : List String} (h : process picked snapshot = .ok ids) {ds : DocumentSnapshot}
    (hds : ds ∈ snapshot) (hno : ¬Readable ds) : picked = [] := by
  induction snapshot generalizing ids with
  | nil => exact absurd hds List.not_mem_nil
  | cons d rest ih =>
    rw [process] at h
    cases hdata : d.data with
    | none =>
      rw [hdata] at h
      rcases List.mem_cons.mp hds with rfl | hds
      · exact absurd (fun hsome => absurd hdata hsome) hno
      · exact ih h hds
    | some m =>
      rw [hdata] at h
      obtain ⟨s, hs, h⟩ := bind_eq_ok.mp h
      obtain ⟨found, hfound, h⟩ := bind_eq_ok.mp h
      obtain ⟨recAsins, hrest, -⟩ := bind_eq_ok.mp h
      rcases List.mem_cons.mp hds with rfl | hds
      · cases s with
        | some s =>
          refine absurd (fun _ => ?_) hno
          rw [categories, hdata, Option.bind_some, str_of_asString hs]
          exact Option.some_ne_none s
        | none =>
          cases picked with
          | nil => rfl
          | cons option picked => exact nomatch hfound
      · exact ih hrest hds

theorem process_nil {snapshot : List DocumentSnapshot} {ids : List String}
    (h : process [] snapshot = .ok ids) : ids = [] := by
  induction snapshot generalizing ids with
  | nil => exact (Except.ok.inj h).symm
  | cons ds rest ih =>
    rw [process] at h
    cases hdata : ds.data with
    | none =>
      rw [hdata] at h
      exact ih h
    | some m =>
      rw [hdata] at h
      obtain ⟨s, -, h⟩ := bind_eq_ok.mp h
      obtain ⟨found, hfound, h⟩ := bind_eq_ok.mp h
      obtain ⟨recAsins, hrest, hids⟩ := bind_eq_ok.mp h
      rw [← Except.ok.inj hids, ← Except.ok.inj hfound, ih hrest]
      rfl

/-- A snapshot with a product without categories starts nothing. -/
theorem submitted_of_unreadable {picked : List String} {snapshot : List DocumentSnapshot}
    {ds : DocumentSnapshot} (hds : ds ∈ snapshot) (hno : ¬Readable ds) :
    submitted picked snapshot = [] := by
  rw [submitted]
  cases h : process picked snapshot with
  | error e => rfl
  | ok ids =>
    obtain rfl := picked_of_unreadable h hds hno
    exact process_nil h

/-! ### What the transactions leave -/

variable {users : Collection} {uid : String} {d : Doc} {xs : List DString}

/-- The recommended list of an existing document after one toggle for each id. -/
theorem final_recommended (hd : users uid = some d) (hf : field d "recommended" = .list xs)
    (ids : List String) :
    ∃ d', SerialHistory.final ListCall.exec (handleRecommendedListChanged uid ids) users uid =
        some d' ∧
      field d' "recommended" = .list ((ids.map some).foldl ListSet.toggle xs) := by
  induction ids generalizing users d xs with
  | nil => exact ⟨d, hd, hf⟩
  | cons id ids ih =>
    have hexec : (ListCall.exec ⟨uid, .updateRecommended (some id), true⟩ users).2 =
        setDoc users uid (putField d "recommended" (.list (ListSet.toggle xs (some id)))) :=
      congrArg Prod.snd (exec_list ⟨uid, .updateRecommended (some id), true⟩ rfl hd hf)
    show ∃ d', SerialHistory.final ListCall.exec (handleRecommendedListChanged uid ids)
      (ListCall.exec ⟨uid, .updateRecommended (some id), true⟩ users).2 uid = some d' ∧ _
    rw [hexec]
    exact ih (setDoc_self _ _ _) (field_putField_self _ _ _)

/-- A product is recommended afterwards if it was and its id was submitted an even number of times,
or it was not and the number is odd; in whatever order the transactions commit. -/
theorem mem_recommended (hd : users uid = some d) (hf : field d "recommended" = .list xs)
    {ids order : List String} (horder : order.Perm ids) (x : DString) :
    x ∈ items (SerialHistory.final ListCall.exec (handleRecommendedListChanged uid order) users) uid
        "recommended" ↔
      (x ∈ xs ↔ Even ((ids.map some).count x)) := by
  obtain ⟨d', hd', hf'⟩ := final_recommended hd hf order
  have hcount : (order.map some).count x = (ids.map some).count x := (horder.map some).count_eq x
  rw [items_of_list hd' hf', ListSet.mem_foldl_toggle, hcount]

theorem count_map_some (ids : List String) (id : String) :
    (ids.map some).count (some id) = ids.count id :=
  List.count_map_of_injective ids some (Option.some_injective String) id

theorem count_map_none (ids : List String) : (ids.map some).count none = 0 :=
  List.count_eq_zero.mpr fun h => by
    obtain ⟨id, -, hid⟩ := List.mem_map.mp h
    exact nomatch hid

/-! ### The matching products -/

/-- After the transactions of a snapshot, in whatever order, the recommended list holds the ids of the
products that match a picked option. -/
def Recommends (picked : List String) (snapshot : List DocumentSnapshot) (uid : String)
    (users : Collection) : Prop :=
  ∀ order, order.Perm (submitted picked snapshot) → ∀ x,
    x ∈ items (SerialHistory.final ListCall.exec (handleRecommendedListChanged uid order) users) uid
        "recommended" ↔
      ∃ ds ∈ snapshot, x = some ds.documentID ∧ ∃ option ∈ picked, Matches ds option

theorem hits_of_not_mem {picked : List String} {id : String} {snapshot : List DocumentSnapshot}
    (h : id ∉ snapshot.map DocumentSnapshot.documentID) : hits picked id snapshot = 0 := by
  induction snapshot with
  | nil => rfl
  | cons ds rest ih =>
    rw [List.map_cons, List.mem_cons, not_or] at h
    rw [hits_cons, if_neg (Ne.symm h.1), ih h.2]

/-- Where ids are not repeated, an id counts for its own product. -/
theorem hits_of_mem {picked : List String} {snapshot : List DocumentSnapshot}
    (hnodup : (snapshot.map DocumentSnapshot.documentID).Nodup) {ds : DocumentSnapshot}
    (hds : ds ∈ snapshot) : hits picked ds.documentID snapshot = matchCount picked ds := by
  induction snapshot with
  | nil => exact absurd hds List.not_mem_nil
  | cons d rest ih =>
    rw [List.map_cons, List.nodup_cons] at hnodup
    rw [hits_cons]
    rcases List.mem_cons.mp hds with rfl | hds
    · rw [if_pos rfl, hits_of_not_mem hnodup.1, Nat.add_zero]
    · have hne : d.documentID ≠ ds.documentID :=
        fun h => hnodup.1 (h ▸ List.mem_map_of_mem hds)
      rw [if_neg hne, Nat.zero_add]
      exact ih hnodup.2 hds

/-- Products of one snapshot with one id match equally often. -/
theorem matchCount_of_id {picked : List String} {snapshot : List DocumentSnapshot}
    (hnodup : (snapshot.map DocumentSnapshot.documentID).Nodup) {ds ds' : DocumentSnapshot}
    (hds : ds ∈ snapshot) (hds' : ds' ∈ snapshot) (h : ds.documentID = ds'.documentID) :
    matchCount picked ds = matchCount picked ds' := by
  rw [← hits_of_mem hnodup hds, h, hits_of_mem hnodup hds']

theorem exists_matches_iff (picked : List String) (ds : DocumentSnapshot) :
    (∃ option ∈ picked, Matches ds option) ↔ matchCount picked ds ≠ 0 := by
  rw [matchCount, ← Nat.pos_iff_ne_zero, List.countP_pos_iff]
  simp only [decide_eq_true_eq]

/-- From an empty list, what is recommended are the products that match an odd number of the picked
options. -/
theorem recommended_iff_odd {picked : List String} {snapshot : List DocumentSnapshot}
    (hnodup : (snapshot.map DocumentSnapshot.documentID).Nodup)
    (hne : ∀ ds ∈ snapshot, ds.documentID ≠ "") (hread : ∀ ds ∈ snapshot, Readable ds)
    (hd : users uid = some d) (hf : field d "recommended" = .list [])
    {order : List String} (horder : order.Perm (submitted picked snapshot)) (x : DString) :
    x ∈ items (SerialHistory.final ListCall.exec (handleRecommendedListChanged uid order) users) uid
        "recommended" ↔
      ∃ ds ∈ snapshot, x = some ds.documentID ∧ ¬Even (matchCount picked ds) := by
  rw [mem_recommended hd hf horder x]
  cases x with
  | none =>
    rw [count_map_none]
    simp
  | some id =>
    rw [count_map_some, count_submitted hread]
    simp only [List.not_mem_nil, false_iff, Option.some.injEq]
    by_cases hid : id ∈ snapshot.map DocumentSnapshot.documentID
    · obtain ⟨ds, hds, rfl⟩ := List.mem_map.mp hid
      rw [if_neg (hne ds hds), hits_of_mem hnodup hds]
      constructor
      · intro hodd
        exact ⟨ds, hds, rfl, hodd⟩
      · rintro ⟨ds', hds', heq, hodd⟩
        rwa [matchCount_of_id hnodup hds hds' heq]
    · rw [hits_of_not_mem hid, ite_self]
      refine iff_of_false (fun hodd => hodd Even.zero) ?_
      rintro ⟨ds, hds, rfl, -⟩
      exact hid (List.mem_map_of_mem hds)

/-- **What the quiz recommends.**  The products have distinct, non-empty ids and a text of categories,
and the document of the user has an empty recommended list.  Then the quiz recommends exactly the
matching products if and only if no product matches an even number of the picked options, unless it
matches none. -/
theorem recommends_iff (picked : List String) (snapshot : List DocumentSnapshot) (uid : String)
    (users : Collection) (hnodup : (snapshot.map DocumentSnapshot.documentID).Nodup)
    (hne : ∀ ds ∈ snapshot, ds.documentID ≠ "") (hread : ∀ ds ∈ snapshot, Readable ds)
    (hempty : ∃ d, users uid = some d ∧ field d "recommended" = .list []) :
    Recommends picked snapshot uid users ↔
      ∀ ds ∈ snapshot, Even (matchCount picked ds) → matchCount picked ds = 0 := by
  obtain ⟨d, hd, hf⟩ := hempty
  constructor
  · intro h ds hds heven
    by_contra hmatches
    have hlisted := (h _ (List.Perm.refl _) (some ds.documentID)).mpr
      ⟨ds, hds, rfl, (exists_matches_iff picked ds).mpr hmatches⟩
    obtain ⟨ds', hds', heq, hodd⟩ :=
      (recommended_iff_odd hnodup hne hread hd hf (List.Perm.refl _) _).mp hlisted
    rw [matchCount_of_id hnodup hds hds' (Option.some.inj heq)] at heven
    exact hodd heven
  · intro h order horder x
    rw [recommended_iff_odd hnodup hne hread hd hf horder]
    refine exists_congr fun ds => and_congr_right fun hds => and_congr_right fun _ => ?_
    rw [exists_matches_iff]
    constructor
    · intro hodd hzero
      exact hodd (hzero ▸ Even.zero)
    · intro hmatches heven
      exact hmatches (h ds hds heven)

/-- A video game. -/
def game : DocumentSnapshot where
  documentID := "mario"
  data := some (docOf [("Categories", .str "Video Games > PC")])

/-- A user without recommendations. -/
def noRecommended : Collection := setDoc (fun _ => none) "ann" (docOf [("recommended", .list [])])

theorem readable_game : Readable game := fun _ => Option.some_ne_none "Video Games > PC"

theorem list_noRecommended :
    ∃ d, noRecommended "ann" = some d ∧ field d "recommended" = .list [] :=
  ⟨_, setDoc_self _ _ _, rfl⟩

/-- Both options match the game, and the second toggle takes it off the list. -/
theorem not_recommends :
    ¬∀ picked snapshot uid users, picked.Nodup → picked ⊆ options →
      (snapshot.map DocumentSnapshot.documentID).Nodup → (∀ ds ∈ snapshot, ds.documentID ≠ "") →
      (∀ ds ∈ snapshot, Readable ds) →
      (∃ d, users uid = some d ∧ field d "recommended" = .list []) →
      Recommends picked snapshot uid users := by
  intro h
  have hgame := h ["Games", "Video Games"] [game] "ann" noRecommended (by decide) (by decide)
    (by decide) (by decide) (by simpa using readable_game) list_noRecommended ["mario", "mario"]
    (List.Perm.refl _) (some "mario")
  exact absurd (hgame.mpr ⟨game, List.mem_singleton.mpr rfl, rfl, "Games", by decide, by decide⟩)
    (by decide)

/-- One option that matches. -/
theorem recommends_iff_game : Recommends ["Video Games"] [game] "ann" noRecommended :=
  (recommends_iff ["Video Games"] [game] "ann" noRecommended (by decide) (by decide)
    (by simpa using readable_game) list_noRecommended).mpr (by decide)

/-! ### A second time -/

/-- A second run over the same snapshot, after the transactions of the first have committed, leaves
the set of recommended ids as the first one left it; in whatever order the transactions commit. -/
def Idempotent (picked : List String) (snapshot : List DocumentSnapshot) (uid : String)
    (users : Collection) : Prop :=
  ∀ first second, first.Perm (submitted picked snapshot) → second.Perm (submitted picked snapshot) →
    ∀ users', users' =
        SerialHistory.final ListCall.exec (handleRecommendedListChanged uid first) users →
      ∀ x, x ∈ items (SerialHistory.final ListCall.exec (handleRecommendedListChanged uid second)
          users') uid "recommended" ↔ x ∈ items users' uid "recommended"

theorem idempotent_iff_even (picked : List String) (snapshot : List DocumentSnapshot)
    {users : Collection} {uid : String} {d : Doc} {xs : List DString} (hd : users uid = some d)
    (hf : field d "recommended" = .list xs) :
    Idempotent picked snapshot uid users ↔ ∀ id, Even ((submitted picked snapshot).count id) := by
  constructor
  · intro h id
    obtain ⟨d', hd', hf'⟩ := final_recommended hd hf (submitted picked snapshot)
    have hsecond := h _ _ (List.Perm.refl _) (List.Perm.refl _) _ rfl (some id)
    rw [mem_recommended hd' hf' (List.Perm.refl _), items_of_list hd' hf', count_map_some] at hsecond
    tauto
  · rintro h first second - hsecond users' rfl x
    obtain ⟨d', hd', hf'⟩ := final_recommended hd hf first
    have heven : Even (((submitted picked snapshot).map some).count x) := by
      cases x with
      | none =>
        rw [count_map_none]
        exact Even.zero
      | some id =>
        rw [count_map_some]
        exact h id
    rw [mem_recommended hd' hf' hsecond, items_of_list hd' hf']
    exact iff_true_right heven

/-- **Processing a snapshot twice.**  On an existing document with a recommended list, the second run
changes nothing if and only if `_process` throws at a product without categories, or the products
with each non-empty id match an even number of the picked options. -/
theorem idempotent_iff (picked : List String) (snapshot : List DocumentSnapshot) (uid : String)
    (users : Collection) (hlist : ∃ d xs, users uid = some d ∧ field d "recommended" = .list xs) :
    Idempotent picked snapshot uid users ↔
      (∃ ds ∈ snapshot, ¬Readable ds) ∨ ∀ id, id ≠ "" → Even (hits picked id snapshot) := by
  obtain ⟨d, xs, hd, hf⟩ := hlist
  rw [idempotent_iff_even picked snapshot hd hf]
  by_cases hread : ∀ ds ∈ snapshot, Readable ds
  · have hno : ¬∃ ds ∈ snapshot, ¬Readable ds := fun ⟨ds, hds, hds'⟩ => hds' (hread ds hds)
    rw [or_iff_right hno]
    refine forall_congr' fun id => ?_
    rw [count_submitted hread]
    by_cases hid : id = ""
    · simp [hid]
    · simp [hid]
  · obtain ⟨ds, hds, hno⟩ : ∃ ds ∈ snapshot, ¬Readable ds := by
      simpa only [not_forall, exists_prop] using hread
    refine iff_of_true (fun id => ?_) (Or.inl ⟨ds, hds, hno⟩)
    rw [submitted_of_unreadable hds hno]
    exact Even.zero

/-- The game is recommended, and the second run takes it off the list. -/
theorem not_idempotent :
    ¬∀ picked snapshot uid users,
      (∃ d xs, users uid = some d ∧ field d "recommended" = .list xs) →
      Idempotent picked snapshot uid users := by
  intro h
  obtain ⟨d, hd, hf⟩ := list_noRecommended
  have hgame := h ["Games"] [game] "ann" noRecommended ⟨d, [], hd, hf⟩ ["mario"] ["mario"]
    (List.Perm.refl _) (List.Perm.refl _) _ rfl (some "mario")
  exact absurd (hgame.mpr (by decide)) (by decide)

/-- Two options that match the game. -/
theorem idempotent_iff_game : Idempotent ["Games", "Video Games"] [game] "ann" noRecommended := by
  obtain ⟨d, hd, hf⟩ := list_noRecommended
  refine (idempotent_iff ["Games", "Video Games"] [game] "ann" noRecommended ⟨d, [], hd, hf⟩).mpr
    (Or.inr fun id _ => ?_)
  rw [hits_cons]
  by_cases hid : game.documentID = id
  · rw [if_pos hid]
    show Even (matchCount ["Games", "Video Games"] game + 0)
    decide
  · rw [if_neg hid]
    exact Even.zero

end GiftGenie.Quiz
