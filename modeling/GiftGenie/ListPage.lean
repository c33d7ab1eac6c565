import GiftGenie.Favorites

/-!
# The tabs of the gift list

`ListPage` shows three tabs over one snapshot of the collection `Products`: all products, those of
`appState.recommended`, and those of `appState.favorites`.  A tab is given the ids it is restricted
to, `null` for no restriction; each product of it becomes a `ProductCard` with a heart, filled if the
product is in `appState.favorites`.

* `buildProducts_ok_iff`: the cards of a tab are made if every product it shows can be read; one that
  cannot be read takes the whole tab with it.
* `tabs_show_stored`: what the tabs show of the favourites in the document, over the runs
  of `Favorites`.
-/

set_option autoImplicit false

namespace GiftGenie.ListPage

open GiftGenie.Library GiftGenie.Firestore GiftGenie.Session GiftGenie.Favorites

/-- The values that a field of a Firestore document can hold; a `double` is given by its bits. -/
inductive FieldValue where
  | null
  | boolean (value : Bool)
  | integer (value : ℤ)
  | double (bits : BitVec 64)
  | timestamp (seconds : ℤ) (nanoseconds : ℕ)
  | string (value : String)
  | blob (bytes : List (BitVec 8))
  | reference (path : String)
  | geoPoint (latitude longitude : BitVec 64)
  | array (values : List FieldValue)
  | map (fields : List (String × FieldValue))

/-- `document.data` of a product. -/
abbrev ProductData := String → Option FieldValue

/-- `data[key]`. -/
def ProductData.at (data : ProductData) (key : String) : FieldValue := (data key).getD .null

/-- A value where a `String` is expected: text and `null` pass. -/
def FieldValue.asString : FieldValue → Except DartError DString
  | .null => .ok none
  | .string value => .ok (some value)
  | _ => .error .typeError

structure Product where
  id : String
  category : DString
  imageURL : DString
  name : DString
  price : DString
  description : DString
  rating : DString
  type : ℤ
  deriving DecidableEq, Repr

/-- `Product.fromMap`. -/
def Product.fromMap (data : ProductData) (id : String) : Except DartError Product := do
  let category ← (data.at "Categories").asString
  let imageURL ← (data.at "Image Link").asString
  let name ← (data.at "Name").asString
  let price ← (data.at "Price").asString
  let description ← (data.at "Product Description").asString
  let rating ← (data.at "Rating").asString
  .ok { id, category, imageURL, name, price, description, rating, type := 1 }

structure ProductCard where
  product : Product
  inFavorites : Bool
  deriving DecidableEq, Repr

/-- A list of the session that may be `null`, and has no method then. -/
def containsId (ids : Option (List DString)) (id : String) : Except DartError Bool :=
  match ids with
  | some ids => .ok (ids.contains (some id))
  | none => .error .noSuchMethod

/-- The card of one document. -/
def productCard (favorites : Option (List DString)) (document : String × ProductData) :
    Except DartError ProductCard := do
  let product ← Product.fromMap document.2 document.1
  let inFavorites ← containsId favorites document.1
  .ok ⟨product, inFavorites⟩

def productCards (favorites : Option (List DString)) :
    List (String × ProductData) → Except DartError (List ProductCard)
  | [] => .ok []
  | document :: documents => do
      let card ← productCard favorites document
      let cards ← productCards favorites documents
      .ok (card :: cards)

/-- `ids == null || ids.contains(d.documentID)`. -/
def shown (ids : Option (List DString)) (id : String) : Bool :=
  match ids with
  | some ids => ids.contains (some id)
  | none => true

/-- `_buildProducts(ids: ids)`, once the snapshot is there. -/
def buildProducts (favorites ids : Option (List DString)) (documents : List (String × ProductData)) :
    Except DartError (List ProductCard) :=
  productCards favorites (documents.filter fun d => shown ids d.1)

/-- What the page shows. -/
inductive Content where
  | loadingIndicator
  /-- `pushNamed("/HomePage")`, and no widget. -/
  | homePage
  | tabs (all recommended favorites : Except DartError (List ProductCard))

/-- `_buildContent`. -/
def buildContent (appState : StateModel) (documents : List (String × ProductData)) : Content :=
  let favorites := appState.favorites.map Loaded.value
  let recommended := appState.recommended.map Loaded.value
  if appState.isLoading then .loadingIndicator
  else
    match appState.user with
    | none => .homePage
    | some _ =>
        .tabs (buildProducts favorites none documents) (buildProducts favorites recommended documents)
          (buildProducts favorites favorites documents)

/-! ### Reading a product -/

/-- The fields that `Product.fromMap` reads. -/
def productFields : List String :=
  ["Categories", "Image Link", "Name", "Price", "Product Description", "Rating"]

/-- The fields of the product are text, `null` or missing. -/
def Readable (data : ProductData) : Prop :=
  ∀ key ∈ productFields, data.at key = .null ∨ ∃ text, data.at key = .string text

theorem asString_ok_iff (v : FieldValue) :
    (∃ s, v.asString = .ok s) ↔ v = .null ∨ ∃ text, v = .string text := by
  cases v with
  | null => exact iff_of_true ⟨none, rfl⟩ (Or.inl rfl)
  | string text => exact iff_of_true ⟨some text, rfl⟩ (Or.inr ⟨text, rfl⟩)
  | _ => exact iff_of_false (fun ⟨_, h⟩ => nomatch h) fun h => h.elim nofun nofun

/-- A product is read if its fields are text, `null` or missing. -/
theorem fromMap_ok_iff (data : ProductData) (id : String) :
    (∃ p, Product.fromMap data id = .ok p) ↔ Readable data := by
  constructor
  · intro h
    obtain ⟨p, h⟩ := h
    obtain ⟨category, hcategory, h⟩ := bind_eq_ok.mp h
    obtain ⟨imageURL, himageURL, h⟩ := bind_eq_ok.mp h
    obtain ⟨name, hname, h⟩ := bind_eq_ok.mp h
    obtain ⟨price, hprice, h⟩ := bind_eq_ok.mp h
    obtain ⟨description, hdescription, h⟩ := bind_eq_ok.mp h
    obtain ⟨rating, hrating, h⟩ := bind_eq_ok.mp h
    intro key hkey
    simp only [productFields, List.mem_cons, List.not_mem_nil, or_false] at hkey
    obtain hk | hk | hk | hk | hk | hk := hkey
    · exact (asString_ok_iff _).mp ⟨category, hk ▸ hcategory⟩
    · exact (asString_ok_iff _).mp ⟨imageURL, hk ▸ himageURL⟩
    · exact (asString_ok_iff _).mp ⟨name, hk ▸ hname⟩
    · exact (asString_ok_iff _).mp ⟨price, hk ▸ hprice⟩
    · exact (asString_ok_iff _).mp ⟨description, hk ▸ hdescription⟩
    · exact (asString_ok_iff _).mp ⟨rating, hk ▸ hrating⟩
  · intro h
    have hread : ∀ key ∈ productFields, ∃ s, (data.at key).asString = .ok s :=
      fun key hkey => (asString_ok_iff _).mpr (h key hkey)
    obtain ⟨category, hcategory⟩ := hread "Categories" (by simp [productFields])
    obtain ⟨imageURL, himageURL⟩ := hread "Image Link" (by simp [productFields])
    obtain ⟨name, hname⟩ := hread "Name" (by simp [productFields])
    obtain ⟨price, hprice⟩ := hread "Price" (by simp [productFields])
    obtain ⟨description, hdescription⟩ := hread "Product Description" (by simp [productFields])
    obtain ⟨rating, hrating⟩ := hread "Rating" (by simp [productFields])
    simp only [Product.fromMap, hcategory, himageURL, hname, hprice, hdescription, hrating, ok_bind]
    exact ⟨_, rfl⟩

theorem id_of_fromMap {data : ProductData} {id : String} {p : Product}
    (h : Product.fromMap data id = .ok p) : p.id = id := by
  obtain ⟨_, -, h⟩ := bind_eq_ok.mp h
  obtain ⟨_, -, h⟩ := bind_eq_ok.mp h
  obtain ⟨_, -, h⟩ := bind_eq_ok.mp h
  obtain ⟨_, -, h⟩ := bind_eq_ok.mp h
  obtain ⟨_, -, h⟩ := bind_eq_ok.mp h
  obtain ⟨_, -, h⟩ := bind_eq_ok.mp h
  cases h
  rfl

/-! ### One tab -/

variable {favorites ids : Option (List DString)}

theorem productCard_ok {document : String × ProductData} {card : ProductCard}
    (h : productCard favorites document = .ok card) :
    card.product.id = document.1 ∧ containsId favorites document.1 = .ok card.inFavorites := by
  obtain ⟨product, hproduct, h⟩ := bind_eq_ok.mp h
  obtain ⟨inFavorites, hcontains, h⟩ := bind_eq_ok.mp h
  cases h
  exact ⟨id_of_fromMap hproduct, hcontains⟩

theorem productCard_ok_iff (document : String × ProductData) :
    (∃ card, productCard favorites document = .ok card) ↔
      Readable document.2 ∧ favorites ≠ none := by
  rw [← fromMap_ok_iff document.2 document.1]
  constructor
  · intro h
    obtain ⟨card, h⟩ := h
    obtain ⟨product, hproduct, h⟩ := bind_eq_ok.mp h
    obtain ⟨inFavorites, hcontains, -⟩ := bind_eq_ok.mp h
    refine ⟨⟨product, hproduct⟩, fun hnull => ?_⟩
    rw [hnull] at hcontains
    cases hcontains
  · intro h
    obtain ⟨⟨product, hproduct⟩, hnull⟩ := h
    obtain ⟨xs, hxs⟩ := Option.ne_none_iff_exists'.mp hnull
    exact ⟨⟨product, xs.contains (some document.1)⟩, by
      simp only [productCard, hproduct, hxs, containsId, ok_bind]⟩

/-- The cards of a tab are those of its documents, in their order, each with its heart. -/
theorem productCards_ok (favorites : Option (List DString)) :
    ∀ (documents : List (String × ProductData)) (cards : List ProductCard),
      productCards favorites documents = .ok cards →
      (cards.map fun card => card.product.id) = documents.map Prod.fst ∧
        ∀ card ∈ cards, containsId favorites card.product.id = .ok card.inFavorites := by
  intro documents
  induction documents with
  | nil =>
    intro cards h
    cases h
    exact ⟨rfl, nofun⟩
  | cons document documents ih =>
    intro cards h
    obtain ⟨card, hcard, h⟩ := bind_eq_ok.mp h
    obtain ⟨rest, hrest, h⟩ := bind_eq_ok.mp h
    cases h
    obtain ⟨hid, hheart⟩ := productCard_ok hcard
    obtain ⟨hids, hhearts⟩ := ih rest hrest
    refine ⟨by rw [List.map_cons, List.map_cons, hids, hid], fun card' hcard' => ?_⟩
    rcases List.mem_cons.mp hcard' with h | h
    · rw [h, hid]
      exact hheart
    · exact hhearts card' h

theorem productCards_ok_iff (favorites : Option (List DString)) :
    ∀ documents : List (String × ProductData), (∃ cards, productCards favorites documents = .ok cards) ↔
      ∀ document ∈ documents, Readable document.2 ∧ favorites ≠ none := by
  intro documents
  induction documents with
  | nil => exact iff_of_true ⟨[], rfl⟩ nofun
  | cons document documents ih =>
    rw [List.forall_mem_cons, ← ih, ← productCard_ok_iff document]
    constructor
    · intro h
      obtain ⟨cards, h⟩ := h
      obtain ⟨card, hcard, h⟩ := bind_eq_ok.mp h
      obtain ⟨rest, hrest, -⟩ := bind_eq_ok.mp h
      exact ⟨⟨card, hcard⟩, rest, hrest⟩
    · intro h
      obtain ⟨⟨card, hcard⟩, rest, hrest⟩ := h
      exact ⟨card :: rest, by simp only [productCards, hcard, hrest, ok_bind]⟩

/-- The cards of a tab are made exactly if every product that it shows has text or `null` in its six
fields, and the favourites are loaded or there is nothing to show. -/
theorem buildProducts_ok_iff (favorites ids : Option (List DString))
    (documents : List (String × ProductData)) :
    (∃ cards, buildProducts favorites ids documents = .ok cards) ↔
      ∀ document ∈ documents, shown ids document.1 = true →
        Readable document.2 ∧ favorites ≠ none := by
  rw [buildProducts, productCards_ok_iff]
  simp only [List.mem_filter, and_imp]

/-- The page has its indicator, or the cards of all three tabs. -/
def Content.Built : Content → Prop
  | .loadingIndicator => True
  | .homePage => False
  | .tabs all recommended favorites =>
      (∃ cards, all = .ok cards) ∧ (∃ cards, recommended = .ok cards) ∧
        ∃ cards, favorites = .ok cards

/-- **One product spoils the page.**  The page has its indicator or all its cards exactly if the session
is loading, or somebody is signed in, every product at all has text or `null` in its six fields, and
the favourites are loaded or there are no products. -/
theorem built_iff (appState : StateModel) (documents : List (String × ProductData)) :
    (buildContent appState documents).Built ↔ appState.isLoading = true ∨
      appState.user ≠ none ∧ ∀ document ∈ documents,
        Readable document.2 ∧ appState.favorites ≠ none := by
  have hnull : appState.favorites.map Loaded.value ≠ none ↔ appState.favorites ≠ none :=
    not_congr Option.map_eq_none_iff
  unfold buildContent
  cases appState.isLoading with
  | true => exact iff_of_true trivial (Or.inl rfl)
  | false =>
    cases appState.user with
    | none => exact iff_of_false id (by simp)
    | some user =>
      simp only [Bool.false_eq_true, if_false, Content.Built, buildProducts_ok_iff, hnull, shown,
        true_implies, false_or, ne_eq, reduceCtorEq, not_false_eq_true, true_and]
      -- the tab of all products shows what the others show
      exact ⟨fun h => h.1, fun h => ⟨h, fun d hd _ => h d hd, fun d hd _ => h d hd⟩⟩

/-- What a tab shows: the documents it is restricted to, in the order of the snapshot, and a filled
heart for each favourite. -/
theorem buildProducts_ok {favorites : List DString} {documents : List (String × ProductData)}
    {cards : List ProductCard} (h : buildProducts (some favorites) ids documents = .ok cards) :
    (cards.map fun card => card.product.id) = (documents.map Prod.fst).filter (shown ids) ∧
      ∀ card ∈ cards, card.inFavorites = true ↔ some card.product.id ∈ favorites := by
  obtain ⟨hids, hhearts⟩ := productCards_ok _ _ _ h
  refine ⟨by rw [hids, List.filter_map]; rfl, fun card hcard => ?_⟩
  have hheart : favorites.contains (some card.product.id) = card.inFavorites :=
    Except.ok.inj (hhearts card hcard)
  rw [← hheart, List.contains_iff_mem]

/-- The first product can be read; the second has a number as its price. -/
def twoProducts : List (String × ProductData) :=
  [("mug", fun key => [("Name", FieldValue.string "Mug"), ("Price", .string "9.99")].lookup key),
    ("pen", fun key => [("Price", FieldValue.integer 3)].lookup key)]

/-- The tab of all products fails, the one of the favourites does not. -/
example : (buildProducts (some [some "mug"]) none twoProducts).toOption = none ∧
    ((buildProducts (some [some "mug"]) (some [some "mug"]) twoProducts).toOption.map
      fun cards => cards.map ProductCard.inFavorites) = some [true] := by
  decide

/-! ### The tabs in a run -/

/-- The answers under way that will flip the product. -/
def owedTimes (s : Client) (productID : String) : ℕ :=
  (owed s.callbacks).countP fun x => x = some productID

/-- `appState.favorites` is the list in the document, with the flips that are still owed. -/
theorem mem_favorites_iff {uid : String} {s : Client} (h : Steady uid s) (productID : String) :
    some productID ∈ s.favorites ↔
      (some productID ∈ stored uid s ↔ Even (owedTimes s productID)) :=
  (h.tracks (some productID)).mem_copy_iff

/-- **What the tabs show.**  In every run in which every copy hears of its flips: a heart on any tab is
filled if the product is a stored favourite and an even number of answers for it is still under way,
or it is none and an odd number is; the tab of the favourites shows the products with a filled heart
and no others.  When nothing is under way the hearts are the document's. -/
theorem tabs_show_stored (uid : String) (users : Collection) (hlists : ListOrMissing users "favorites")
    (events : List Event) (s : Client)
    (hheard : Machine.AllSteps (step uid) (Heard uid) (Client.start users uid) events)
    (hrun : Machine.run (step uid) (Client.start users uid) events = some s)
    (documents : List (String × ProductData)) :
    (∀ ids cards, buildProducts (some s.favorites) ids documents = .ok cards → ∀ card ∈ cards,
      (card.inFavorites = true ↔ (some card.product.id ∈ stored uid s ↔
        Even (owedTimes s card.product.id)))) ∧
    ∀ cards, buildProducts (some s.favorites) (some s.favorites) documents = .ok cards →
      (∀ card ∈ cards, card.inFavorites = true) ∧
      (s.callbacks = [] → (cards.map fun card => card.product.id) =
        (documents.map Prod.fst).filter fun id => some id ∈ stored uid s) := by
  have hsteady : Steady uid s :=
    Machine.run_guarded steady_step events _ s (steady_start hlists uid) hheard hrun
  refine ⟨fun ids cards h card hcard => ?_, fun cards h => ?_⟩
  · rw [(buildProducts_ok h).2 card hcard]
    exact mem_favorites_iff hsteady _
  · obtain ⟨hids, hhearts⟩ := buildProducts_ok h
    have hshown : ∀ id, shown (some s.favorites) id = true ↔ some id ∈ s.favorites :=
      fun id => List.contains_iff_mem
    refine ⟨fun card hcard => (hhearts card hcard).mpr ?_, fun hrest => ?_⟩
    · have hid : card.product.id ∈ cards.map fun card => card.product.id :=
        List.mem_map.mpr ⟨card, hcard, rfl⟩
      rw [hids] at hid
      exact (hshown _).mp (List.mem_filter.mp hid).2
    · rw [hids]
      refine List.filter_congr fun id _ => ?_
      have hzero : Even (owedTimes s id) := by
        rw [owedTimes, hrest]
        exact ⟨0, rfl⟩
      rw [Bool.eq_iff_iff, hshown, decide_eq_true_iff, mem_favorites_iff hsteady]
      exact iff_true_right hzero

/-- After a tap on the heart of a card the product is in the tab of the favourites. -/
theorem tabs_show_stored_card :
    ∃ s, Machine.run (step "ann") (Client.start noFavorites "ann") cardTap = some s ∧
      ∀ cards, buildProducts (some s.favorites) (some s.favorites) twoProducts = .ok cards →
        (cards.map fun card => card.product.id) = ["mug"] := by
  refine ⟨_, rfl, fun cards h => ?_⟩
  have hids := ((tabs_show_stored "ann" noFavorites listOrMissing_noFavorites cardTap _ heard_cardTap
    rfl twoProducts).2 cards h).2 rfl
  rw [hids]
  unfold stored
  decide

end GiftGenie.ListPage
