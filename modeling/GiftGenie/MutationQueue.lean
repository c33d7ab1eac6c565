import GiftGenie.Library.OrderedTable
import GiftGenie.Mutations
import Mathlib.Data.List.Dedup
import Mathlib.Data.List.Sort
import Mathlib.Data.List.TakeWhile
import Mathlib.Data.Prod.Lex
import Mathlib.Data.String.Basic

/-!
# The mutation queue of the client

`setData` outside a transaction does not wait for the server: the client stores the mutations as a
batch in LevelDB and sends it later.  `FSTLevelDBMutationQueue` keeps two tables for this, the batches
of each user by their ids, and an index with a row for each document that a batch is about.

A `HARD_ASSERT` that fails ends the program; here the operation ends with a `Failure`.

* `WellFormed`: the index has the rows that it should have, and the ids are those of batches.
* `next_eq`, `affecting_eq`: what is read through the tables and the index is what the list of all
  batches says.
* `add_ok`, `remove_ok`, `check_ok`: the operations keep the tables well formed and do not fail.
* `lt_loadNextBatchID`: a queue that is started again gives no id twice.
-/

set_option autoImplicit false

namespace GiftGenie.MutationQueue

open GiftGenie.Library.OrderedTable GiftGenie.Mutations

/-- An `int32_t` in the source.  The ids that are computed stay within its range as long as no batch
is added at `batchIdMax` (`FirestoreClient.step`). -/
abbrev BatchId := ℤ

/-- `kBatchIdUnknown`. -/
def batchIdUnknown : BatchId := -1

/-- The largest `int32_t`. -/
def batchIdMax : BatchId := 2147483647

structure MutationBatch where
  batchID : BatchId
  mutations : List Mutation

/-- The documents that the batch is about, each once. -/
def MutationBatch.keys (b : MutationBatch) : List String := (b.mutations.map Mutation.key).dedup

theorem MutationBatch.mem_keys {b : MutationBatch} {key : String} :
    key ∈ b.keys ↔ ∃ m ∈ b.mutations, m.key = key := by
  rw [MutationBatch.keys, List.mem_dedup, List.mem_map]

/-- The `HARD_ASSERT`s of the write path. -/
inductive Failure where
  | emptyBatch
  | batchMissing
  | nextMissing
  | danglingReference
  | documentLeak
  | rejectsNonexistent
  | resultsMismatch
  | transformResults
  | versionMissing
  | resultedInNil
  | alreadyStarted
  | notStarting
  | notOpen
  | handshakeComplete
  | handshakeIncomplete
  | notInError
  | notInBackoff
  | notStarted
  | notStopped
  | startNotNeeded
  | pipelineFull
  | pipelineEmpty
  | stoppedWhileNeeded
  deriving DecidableEq, Repr

def hardAssert (p : Prop) [Decidable p] (f : Failure) : Except Failure Unit :=
  if p then .ok () else .error f

theorem hardAssert_ok {p : Prop} [Decidable p] (h : p) (f : Failure) : hardAssert p f = .ok () :=
  if_pos h

@[simp] theorem ok_bind {α β : Type} (a : α) (f : α → Except Failure β) :
    (Except.ok a >>= f) = f a := rfl

@[simp] theorem pure_eq_ok {α : Type} (a : α) : (pure a : Except Failure α) = .ok a := rfl

/-! ### The tables -/

/-- The key of a row of batches: `LevelDbMutationKey`. -/
structure MutationKey where
  userID : String
  batchID : BatchId
  deriving DecidableEq

instance : LinearOrder MutationKey :=
  LinearOrder.lift' (fun k => toLex (k.userID, k.batchID)) fun k k' h => by
    cases k
    cases k'
    cases h
    rfl

theorem MutationKey.lt_iff {k k' : MutationKey} :
    k < k' ↔ k.userID < k'.userID ∨ k.userID = k'.userID ∧ k.batchID < k'.batchID :=
  Prod.Lex.toLex_lt_toLex

/-- The key of a row of the index: `LevelDbDocumentMutationKey`. -/
structure DocumentMutationKey where
  userID : String
  documentKey : String
  batchID : BatchId
  deriving DecidableEq

instance : LinearOrder DocumentMutationKey :=
  LinearOrder.lift' (fun k => toLex (k.userID, toLex (k.documentKey, k.batchID))) fun k k' h => by
    cases k
    cases k'
    cases h
    rfl

theorem DocumentMutationKey.lt_iff {k k' : DocumentMutationKey} :
    k < k' ↔ k.userID < k'.userID ∨ k.userID = k'.userID ∧
      (k.documentKey < k'.documentKey ∨ k.documentKey = k'.documentKey ∧ k.batchID < k'.batchID) := by
  show toLex (k.userID, toLex (k.documentKey, k.batchID)) <
    toLex (k'.userID, toLex (k'.documentKey, k'.batchID)) ↔ _
  rw [Prod.Lex.toLex_lt_toLex, Prod.Lex.toLex_lt_toLex]

structure LevelDB where
  mutations : Table MutationKey (List Mutation) := {}
  documentMutations : Table DocumentMutationKey Unit := {}

/-- The batch that a row holds. -/
def batchOf (r : MutationKey × List Mutation) : MutationBatch := ⟨r.1.batchID, r.2⟩

namespace LevelDB

variable (db : LevelDB) (userID : String)

def allMutationBatches : List MutationBatch :=
  (db.mutations.scan (fun k => k.userID < userID) fun k => k.userID = userID).map batchOf

def isEmpty : Bool :=
  (db.mutations.scan (fun k => k.userID < userID) fun k => k.userID = userID).isEmpty

def lookupMutationBatch (batchID : BatchId) : Option MutationBatch :=
  (db.mutations.get ⟨userID, batchID⟩).map fun mutations => ⟨batchID, mutations⟩

def nextMutationBatchAfterBatchID (batchID : BatchId) : Except Failure (Option MutationBatch) :=
  match db.mutations.seek ⟨userID, batchID + 1⟩ with
  | none => .ok none
  | some r =>
      if r.1.userID ≠ userID then .ok none
      else do
        hardAssert (batchID + 1 ≤ r.1.batchID) .nextMissing
        return some (batchOf r)

/-- The rows of the index about a document. -/
def indexRows (documentKey : String) : List (DocumentMutationKey × Unit) :=
  db.documentMutations.scan
    (fun k => k.userID < userID ∨ k.userID = userID ∧ k.documentKey < documentKey)
    fun k => k.userID = userID ∧ k.documentKey = documentKey

/-- The batch that the index refers to. -/
def referencedBatch (batchID : BatchId) : Except Failure MutationBatch :=
  match db.mutations.seek ⟨userID, batchID⟩ with
  | none => .error .danglingReference
  | some r => do
      hardAssert (r.1 = ⟨userID, batchID⟩) .danglingReference
      return batchOf r

def allMutationBatchesAffectingDocumentKey (documentKey : String) :
    Except Failure (List MutationBatch) :=
  (db.indexRows userID documentKey).mapM fun r => db.referencedBatch userID r.1.batchID

def allMutationBatchesWithBatchIDs (batchIDs : List BatchId) : Except Failure (List MutationBatch) :=
  batchIDs.mapM (db.referencedBatch userID)

/-- The ids are collected in a `std::set`, so each comes once and in order. -/
def allMutationBatchesAffectingDocumentKeys (documentKeys : List String) :
    Except Failure (List MutationBatch) :=
  db.allMutationBatchesWithBatchIDs userID
    ((documentKeys.flatMap fun key => (db.indexRows userID key).map fun r => r.1.batchID).dedup
      |>.insertionSort (· ≤ ·))

/-- `addMutationBatchWithWriteTime` with the id that is next. -/
def addMutationBatch (batchID : BatchId) (mutations : List Mutation) :
    Except Failure (LevelDB × MutationBatch) := do
  hardAssert (mutations ≠ []) .emptyBatch
  return ({
    mutations := db.mutations.put ⟨userID, batchID⟩ mutations
    documentMutations := mutations.foldl (fun t m => t.put ⟨userID, m.key, batchID⟩ ())
      db.documentMutations }, ⟨batchID, mutations⟩)

def removeMutationBatch (batch : MutationBatch) : Except Failure LevelDB := do
  let key : MutationKey := ⟨userID, batch.batchID⟩
  hardAssert ((db.mutations.seek key).map Prod.fst = some key) .batchMissing
  return {
    mutations := db.mutations.delete key
    documentMutations := batch.mutations.foldl (fun t m => t.delete ⟨userID, m.key, batch.batchID⟩)
      db.documentMutations }

def performConsistencyCheck : Except Failure Unit :=
  if db.isEmpty userID then
    hardAssert (db.documentMutations.scan (fun k => k.userID < userID) fun k => k.userID = userID = [])
      .documentLeak
  else .ok ()

/-- The last row of each user. -/
def lastRows : List (MutationKey × List Mutation) → List MutationKey
  | [] => []
  | [r] => [r.1]
  | r :: r' :: rows =>
      if r.1.userID = r'.1.userID then lastRows (r' :: rows) else r.1 :: lastRows (r' :: rows)

def loadNextBatchID : BatchId :=
  (lastRows db.mutations.rows).foldl (fun id k => if id < k.batchID then k.batchID else id)
    batchIdUnknown + 1

/-! ### The queue of a user -/

variable {db userID}

theorem userID_le {k k' : MutationKey} (h : k ≤ k') : k.userID ≤ k'.userID := by
  rcases le_iff_lt_or_eq.mp h with h | h
  · rcases MutationKey.lt_iff.mp h with h | ⟨h, -⟩
    · exact le_of_lt h
    · exact le_of_eq h
  · rw [h]

/-- Among the keys of a user the ids decide. -/
theorem batchID_le_iff {k k' : MutationKey} (h : k.userID = k'.userID) :
    k ≤ k' ↔ k.batchID ≤ k'.batchID := by
  rw [← not_lt, ← not_lt, MutationKey.lt_iff, h]
  simp only [lt_irrefl, true_and, false_or]

theorem allMutationBatches_eq (db : LevelDB) (userID : String) :
    db.allMutationBatches userID =
      (db.mutations.rows.filter fun r => r.1.userID = userID).map batchOf := by
  refine congrArg _ (Table.scan_eq_filter db.mutations (fun k k' hlt hbelow => ?_)
    (fun k hin => ?_) fun k k' hlt hb hin => ?_)
  · have hle := userID_le (le_of_lt hlt)
    exact decide_eq_true (lt_of_le_of_lt hle (of_decide_eq_true hbelow))
  · have hk : k.userID = userID := of_decide_eq_true hin
    exact decide_eq_false (by rw [hk]; exact lt_irrefl _)
  · have hle := userID_le (le_of_lt hlt)
    have hk' : k'.userID = userID := of_decide_eq_true hin
    have hge : userID ≤ k.userID := not_lt.mp (of_decide_eq_false hb)
    exact decide_eq_true (le_antisymm (hk' ▸ hle) hge)

theorem mem_queue {b : MutationBatch} :
    b ∈ db.allMutationBatches userID ↔ (⟨userID, b.batchID⟩, b.mutations) ∈ db.mutations.rows := by
  rw [allMutationBatches_eq, List.mem_map]
  constructor
  · rintro ⟨⟨⟨user, id⟩, mutations⟩, hr, rfl⟩
    obtain ⟨hmem, huser⟩ := List.mem_filter.mp hr
    have huser : user = userID := of_decide_eq_true huser
    rw [huser] at hmem
    exact hmem
  · intro h
    exact ⟨_, List.mem_filter.mpr ⟨h, decide_eq_true rfl⟩, rfl⟩

/-- The queue is in the order of its ids. -/
theorem queue_sorted (db : LevelDB) (userID : String) :
    (db.allMutationBatches userID).Pairwise fun b b' => b.batchID < b'.batchID := by
  rw [allMutationBatches_eq, List.pairwise_map]
  refine (db.mutations.sorted.filter _).imp_of_mem fun {r r'} hr hr' hlt => ?_
  have huser : r.1.userID = userID := of_decide_eq_true (List.mem_filter.mp hr).2
  have huser' : r'.1.userID = userID := of_decide_eq_true (List.mem_filter.mp hr').2
  rcases MutationKey.lt_iff.mp hlt with h | ⟨-, h⟩
  · rw [huser, huser'] at h
    exact absurd h (lt_irrefl _)
  · exact h

theorem queue_unique {b b' : MutationBatch} (h : b ∈ db.allMutationBatches userID)
    (h' : b' ∈ db.allMutationBatches userID) (hid : b.batchID = b'.batchID) : b = b' := by
  have hnodup : ((db.allMutationBatches userID).map MutationBatch.batchID).Nodup :=
    (List.pairwise_map.mpr (db.queue_sorted userID)).imp fun hlt => ne_of_lt hlt
  exact List.inj_on_of_nodup_map hnodup h h' hid

theorem isEmpty_iff (db : LevelDB) (userID : String) :
    db.isEmpty userID = true ↔ db.allMutationBatches userID = [] := by
  rw [isEmpty, allMutationBatches, List.map_eq_nil_iff, List.isEmpty_iff]

theorem lookupMutationBatch_of_mem {b : MutationBatch} (h : b ∈ db.allMutationBatches userID) :
    db.lookupMutationBatch userID b.batchID = some b := by
  rw [lookupMutationBatch, Table.get_eq_some.mpr (mem_queue.mp h)]
  rfl

/-- The tables belong together. -/
structure WellFormed (db : LevelDB) : Prop where
  known : ∀ r ∈ db.mutations.rows, batchIdUnknown < r.1.batchID
  nonempty : ∀ r ∈ db.mutations.rows, r.2 ≠ []
  indexed : ∀ k : DocumentMutationKey, (k, ()) ∈ db.documentMutations.rows ↔
    ∃ b ∈ db.allMutationBatches k.userID, b.batchID = k.batchID ∧ k.documentKey ∈ b.keys

theorem not_mem_empty (user : String) (b : MutationBatch) :
    b ∉ LevelDB.allMutationBatches {} user := by
  intro hb
  cases mem_queue.mp hb

theorem wellFormed_empty : WellFormed {} where
  known := fun r hr => by cases hr
  nonempty := fun r hr => by cases hr
  indexed := fun k =>
    iff_of_false (fun h => by cases h) fun ⟨b, hb, _⟩ => not_mem_empty k.userID b hb

theorem known_of_mem (hdb : db.WellFormed) {b : MutationBatch}
    (h : b ∈ db.allMutationBatches userID) : batchIdUnknown < b.batchID :=
  hdb.known _ (mem_queue.mp h)

/-! ### Reading -/

/-- The next batch is found by one seek. -/
theorem next_eq (db : LevelDB) (userID : String) (batchID : BatchId) :
    db.nextMutationBatchAfterBatchID userID batchID =
      .ok ((db.allMutationBatches userID).find? fun b => batchID < b.batchID) := by
  have hat : ∀ b : MutationBatch, (⟨userID, batchID + 1⟩ : MutationKey) ≤ ⟨userID, b.batchID⟩ ↔
      batchID < b.batchID := by
    intro b
    rw [batchID_le_iff (by rfl)]
    exact Int.add_one_le_iff
  rcases Table.seek_cases db.mutations ⟨userID, batchID + 1⟩ with ⟨hs, hall⟩ | ⟨r, hr, hs, hle, hleast⟩
  · have hnone : (db.allMutationBatches userID).find? (fun b => batchID < b.batchID) = none :=
      List.find?_eq_none.mpr fun b hb hlt =>
        not_lt_of_ge ((hat b).mpr (of_decide_eq_true hlt)) (hall _ (mem_queue.mp hb))
    rw [nextMutationBatchAfterBatchID, hs, hnone]
  · have hlater : ∀ b ∈ db.allMutationBatches userID, batchID < b.batchID →
        r.1 ≤ ⟨userID, b.batchID⟩ := fun b hb hlt =>
      hleast _ (mem_queue.mp hb) ((hat b).mpr hlt)
    by_cases huser : r.1.userID = userID
    · have hid : batchID + 1 ≤ r.1.batchID := (batchID_le_iff huser.symm).mp hle
      have hmem : batchOf r ∈ db.allMutationBatches userID :=
        mem_queue.mpr (by rw [← huser]; exact hr)
      have hfind : (db.allMutationBatches userID).find? (fun b => batchID < b.batchID) =
          some (batchOf r) :=
        Table.find?_of_least (f := MutationBatch.batchID) (db.queue_sorted userID) hmem
          (decide_eq_true (Int.add_one_le_iff.mp hid)) fun b hb hlt =>
            (batchID_le_iff huser).mp (hlater b hb (of_decide_eq_true hlt))
      rw [nextMutationBatchAfterBatchID, hs, hfind]
      simp only [huser, ne_eq, not_true_eq_false, if_false, hardAssert_ok hid]
      rfl
    · -- the seek went past the rows of the user
      have hnone : (db.allMutationBatches userID).find? (fun b => batchID < b.batchID) = none :=
        List.find?_eq_none.mpr fun b hb hlt =>
          huser (le_antisymm (userID_le (hlater b hb (of_decide_eq_true hlt))) (userID_le hle))
      rw [nextMutationBatchAfterBatchID, hs, hnone]
      simp only [huser, ne_eq, not_false_eq_true, if_true]

theorem referencedBatch_of_mem {b : MutationBatch} (h : b ∈ db.allMutationBatches userID) :
    db.referencedBatch userID b.batchID = .ok b := by
  rw [referencedBatch, Table.seek_of_mem (mem_queue.mp h)]
  simp only [hardAssert_ok]
  rfl

/-- Batches that are fetched by their ids. -/
theorem fetch_eq {p : MutationBatch → Bool} {batchIDs : List BatchId}
    (hsorted : batchIDs.Pairwise (· < ·))
    (hids : ∀ id, id ∈ batchIDs ↔ ∃ b ∈ db.allMutationBatches userID, b.batchID = id ∧ p b = true) :
    db.allMutationBatchesWithBatchIDs userID batchIDs =
      .ok ((db.allMutationBatches userID).filter p) := by
  have hfetch : ∀ bs : List MutationBatch, (∀ b ∈ bs, b ∈ db.allMutationBatches userID) →
      db.allMutationBatchesWithBatchIDs userID (bs.map MutationBatch.batchID) = .ok bs := by
    intro bs
    induction bs with
    | nil => intro _; rfl
    | cons b bs ih =>
      intro h
      obtain ⟨hb, hbs⟩ := List.forall_mem_cons.mp h
      have htail := ih hbs
      rw [allMutationBatchesWithBatchIDs] at htail ⊢
      rw [List.map_cons, List.mapM_cons, referencedBatch_of_mem hb, htail]
      rfl
  have hfiltered : (((db.allMutationBatches userID).filter p).map MutationBatch.batchID).Pairwise
      (· < ·) := List.pairwise_map.mpr ((db.queue_sorted userID).filter p)
  have hperm : batchIDs.Perm (((db.allMutationBatches userID).filter p).map MutationBatch.batchID) := by
    refine (List.perm_ext_iff_of_nodup (hsorted.imp ne_of_lt) (hfiltered.imp ne_of_lt)).mpr fun id => ?_
    rw [hids, List.mem_map]
    constructor
    · rintro ⟨b, hb, hid, hp⟩
      exact ⟨b, List.mem_filter.mpr ⟨hb, hp⟩, hid⟩
    · rintro ⟨b, hb, hid⟩
      obtain ⟨hb, hp⟩ := List.mem_filter.mp hb
      exact ⟨b, hb, hid, hp⟩
  have hsame : batchIDs = ((db.allMutationBatches userID).filter p).map MutationBatch.batchID :=
    hperm.eq_of_pairwise (fun a b _ _ hab hba => absurd hba (lt_asymm hab)) hsorted hfiltered
  rw [hsame]
  exact hfetch _ fun b hb => (List.mem_filter.mp hb).1

theorem indexRows_eq (db : LevelDB) (userID documentKey : String) :
    db.indexRows userID documentKey =
      db.documentMutations.rows.filter fun r => r.1.userID = userID ∧ r.1.documentKey = documentKey := by
  refine Table.scan_eq_filter db.documentMutations (fun k k' hlt hbelow => ?_) (fun k hin => ?_)
    fun k k' hlt hb hin => ?_
  · refine decide_eq_true ?_
    have hbelow := of_decide_eq_true hbelow
    rcases DocumentMutationKey.lt_iff.mp hlt with h | ⟨h, h'⟩ <;> rcases hbelow with hb | ⟨hb, hb'⟩
    · exact Or.inl (lt_trans h hb)
    · exact Or.inl (hb ▸ h)
    · exact Or.inl (h ▸ hb)
    · refine Or.inr ⟨h.trans hb, ?_⟩
      rcases h' with h' | ⟨h', -⟩
      · exact lt_trans h' hb'
      · exact h' ▸ hb'
  · obtain ⟨huser, hkey⟩ := of_decide_eq_true hin
    refine decide_eq_false ?_
    rw [huser, hkey]
    simp only [lt_irrefl, and_false, or_false, not_false_eq_true]
  · obtain ⟨huser, hkey⟩ := of_decide_eq_true hin
    have hb := of_decide_eq_false hb
    rw [not_or, not_and, not_lt, not_lt] at hb
    refine decide_eq_true ?_
    rcases DocumentMutationKey.lt_iff.mp hlt with h | ⟨h, h'⟩
    · exact absurd (huser ▸ h) (not_lt_of_ge hb.1)
    · have huser' : k.userID = userID := h.trans huser
      refine ⟨huser', le_antisymm ?_ (hb.2 huser')⟩
      rcases h' with h' | ⟨h', -⟩
      · exact le_of_lt (hkey ▸ h')
      · exact le_of_eq (h'.trans hkey)

theorem mem_indexRows (hdb : db.WellFormed) {documentKey : String} {id : BatchId} :
    id ∈ (db.indexRows userID documentKey).map (fun r => r.1.batchID) ↔
      ∃ b ∈ db.allMutationBatches userID, b.batchID = id ∧ documentKey ∈ b.keys := by
  rw [indexRows_eq, List.mem_map]
  constructor
  · rintro ⟨⟨k, u⟩, hr, rfl⟩
    obtain ⟨hmem, hk⟩ := List.mem_filter.mp hr
    obtain ⟨huser, hkey⟩ := of_decide_eq_true hk
    obtain ⟨b, hb, hid, hb'⟩ := (hdb.indexed k).mp hmem
    rw [huser] at hb
    rw [hkey] at hb'
    exact ⟨b, hb, hid, hb'⟩
  · rintro ⟨b, hb, rfl, hkey⟩
    have hrow := (hdb.indexed ⟨userID, documentKey, b.batchID⟩).mpr ⟨b, hb, rfl, hkey⟩
    exact ⟨_, List.mem_filter.mpr ⟨hrow, decide_eq_true ⟨rfl, rfl⟩⟩, rfl⟩

theorem indexRows_sorted (db : LevelDB) (userID documentKey : String) :
    ((db.indexRows userID documentKey).map fun r => r.1.batchID).Pairwise (· < ·) := by
  rw [indexRows_eq, List.pairwise_map]
  refine (db.documentMutations.sorted.filter _).imp_of_mem fun {r r'} hr hr' hlt => ?_
  obtain ⟨huser, hkey⟩ := of_decide_eq_true (List.mem_filter.mp hr).2
  obtain ⟨huser', hkey'⟩ := of_decide_eq_true (List.mem_filter.mp hr').2
  rcases DocumentMutationKey.lt_iff.mp hlt with h | ⟨-, h | ⟨-, h⟩⟩
  · rw [huser, huser'] at h
    exact absurd h (lt_irrefl _)
  · rw [hkey, hkey'] at h
    exact absurd h (lt_irrefl _)
  · exact h

/-- **The index.**  What is read through it are the batches of the queue that are about the
document. -/
theorem affecting_eq (hdb : db.WellFormed) (documentKey : String) :
    db.allMutationBatchesAffectingDocumentKey userID documentKey =
      .ok ((db.allMutationBatches userID).filter fun b => documentKey ∈ b.keys) := by
  have hmap : db.allMutationBatchesAffectingDocumentKey userID documentKey =
      db.allMutationBatchesWithBatchIDs userID
        ((db.indexRows userID documentKey).map fun r => r.1.batchID) := by
    rw [allMutationBatchesWithBatchIDs, List.mapM_map]
    rfl
  rw [hmap]
  refine fetch_eq (db.indexRows_sorted userID documentKey) fun id => ?_
  rw [mem_indexRows hdb]
  simp only [decide_eq_true_eq]

theorem affectingKeys_eq (hdb : db.WellFormed) (documentKeys : List String) :
    db.allMutationBatchesAffectingDocumentKeys userID documentKeys =
      .ok ((db.allMutationBatches userID).filter fun b => ∃ key ∈ documentKeys, key ∈ b.keys) := by
  refine fetch_eq ?_ fun id => ?_
  · have hnodup := (List.perm_insertionSort (· ≤ ·) _).nodup_iff.mpr (List.nodup_dedup
      (documentKeys.flatMap fun key => (db.indexRows userID key).map fun r => r.1.batchID))
    exact ((List.pairwise_insertionSort (· ≤ ·) _).and hnodup).imp fun ⟨hle, hne⟩ =>
      lt_of_le_of_ne hle hne
  · rw [List.mem_insertionSort, List.mem_dedup, List.mem_flatMap]
    simp only [mem_indexRows hdb, decide_eq_true_eq]
    constructor
    · rintro ⟨key, hkey, b, hb, hid, hmem⟩
      exact ⟨b, hb, hid, key, hkey, hmem⟩
    · rintro ⟨b, hb, hid, key, hkey, hmem⟩
      exact ⟨key, hkey, b, hb, hid, hmem⟩

/-! ### Writing -/

theorem queue_put_self {id : BatchId} {mutations : List Mutation}
    (hlast : ∀ b ∈ db.allMutationBatches userID, b.batchID < id)
    (index : Table DocumentMutationKey Unit) :
    allMutationBatches ⟨db.mutations.put ⟨userID, id⟩ mutations, index⟩ userID =
      db.allMutationBatches userID ++ [⟨id, mutations⟩] := by
  have hrows := Table.filter_put_last (t := db.mutations) (k := ⟨userID, id⟩) (v := mutations)
    (p := fun k => k.userID = userID) (decide_eq_true rfl) fun r hr hp => by
      have huser : r.1.userID = userID := of_decide_eq_true hp
      have hmem : batchOf r ∈ db.allMutationBatches userID :=
        mem_queue.mpr (by rw [← huser]; exact hr)
      exact MutationKey.lt_iff.mpr (Or.inr ⟨huser, hlast _ hmem⟩)
  rw [allMutationBatches_eq, allMutationBatches_eq, hrows, List.map_append]
  rfl

theorem queue_put_other {user : String} {id : BatchId} {mutations : List Mutation}
    (huser : user ≠ userID) (index : Table DocumentMutationKey Unit) :
    allMutationBatches ⟨db.mutations.put ⟨userID, id⟩ mutations, index⟩ user =
      db.allMutationBatches user := by
  rw [allMutationBatches_eq, allMutationBatches_eq,
    Table.filter_put_other (p := fun k : MutationKey => k.userID = user)
      (decide_eq_false (Ne.symm huser))]

theorem queue_delete (db : LevelDB) (userID user : String) (id : BatchId)
    (index : Table DocumentMutationKey Unit) :
    allMutationBatches ⟨db.mutations.delete ⟨userID, id⟩, index⟩ user =
      (db.allMutationBatches user).filter fun b => ¬(user = userID ∧ b.batchID = id) := by
  rw [allMutationBatches_eq, allMutationBatches_eq, List.filter_map,
    Table.filter_delete db.mutations ⟨userID, id⟩ fun k => k.userID = user]
  refine congrArg _ (List.filter_congr fun r hr => ?_)
  have huser : r.1.userID = user := of_decide_eq_true (List.mem_filter.mp hr).2
  have hkey : r.1 = ⟨userID, id⟩ ↔ user = userID ∧ r.1.batchID = id := by
    rw [← huser]
    constructor
    · intro h
      rw [h]
      exact ⟨rfl, rfl⟩
    · rintro ⟨h, h'⟩
      rw [← h, ← h']
  exact decide_eq_decide.mpr (not_congr hkey)

/-- A new batch goes to the end of the queue of its user. -/
theorem add_ok (hdb : db.WellFormed) {id : BatchId} {mutations : List Mutation}
    (hne : mutations ≠ []) (hid : batchIdUnknown < id)
    (hlast : ∀ b ∈ db.allMutationBatches userID, b.batchID < id) :
    ∃ db', db.addMutationBatch userID id mutations = .ok (db', ⟨id, mutations⟩) ∧ db'.WellFormed ∧
      db'.allMutationBatches userID = db.allMutationBatches userID ++ [⟨id, mutations⟩] ∧
      ∀ user, user ≠ userID → db'.allMutationBatches user = db.allMutationBatches user := by
  let db' : LevelDB := {
    mutations := db.mutations.put ⟨userID, id⟩ mutations
    documentMutations := mutations.foldl (fun t m => t.put ⟨userID, m.key, id⟩ ())
      db.documentMutations }
  have hself : db'.allMutationBatches userID = db.allMutationBatches userID ++ [⟨id, mutations⟩] :=
    queue_put_self hlast _
  have hother : ∀ user, user ≠ userID → db'.allMutationBatches user = db.allMutationBatches user :=
    fun user huser => queue_put_other huser _
  refine ⟨db', ?_, ⟨fun r hr => ?_, fun r hr => ?_, fun k => ?_⟩, hself, hother⟩
  · rw [addMutationBatch, hardAssert_ok hne]
    rfl
  · rcases Table.mem_put.mp hr with hr | ⟨hr, -⟩
    · rw [hr]
      exact hid
    · exact hdb.known r hr
  · rcases Table.mem_put.mp hr with hr | ⟨hr, -⟩
    · rw [hr]
      exact hne
    · exact hdb.nonempty r hr
  · have hrow : (k, ()) ∈ db'.documentMutations.rows ↔ (∃ m ∈ mutations, k = ⟨userID, m.key, id⟩) ∨
        (k, ()) ∈ db.documentMutations.rows ∧ ∀ m ∈ mutations, k ≠ ⟨userID, m.key, id⟩ := by
      have hput := Table.mem_foldl_put (r := (k, ())) (v := ())
        (fun m : Mutation => (⟨userID, m.key, id⟩ : DocumentMutationKey)) mutations db.documentMutations
      simpa only [Prod.mk.injEq, and_true] using hput
    rw [hrow]
    by_cases huser : k.userID = userID
    · rw [hdb.indexed k, huser, hself]
      constructor
      · rintro (⟨m, hm, rfl⟩ | ⟨⟨b, hb, hbid, hkey⟩, -⟩)
        · exact ⟨⟨id, mutations⟩, List.mem_append_right _ List.mem_cons_self, rfl,
            MutationBatch.mem_keys.mpr ⟨m, hm, rfl⟩⟩
        · exact ⟨b, List.mem_append_left _ hb, hbid, hkey⟩
      · rintro ⟨b, hb, hbid, hkey⟩
        rcases List.mem_append.mp hb with hb | hb
        · refine Or.inr ⟨⟨b, hb, hbid, hkey⟩, fun m _ hk => ?_⟩
          have hlt := hlast b hb
          rw [hbid, hk] at hlt
          exact lt_irrefl _ hlt
        · rw [List.mem_singleton.mp hb] at hbid hkey
          obtain ⟨m, hm, hmk⟩ := MutationBatch.mem_keys.mp hkey
          refine Or.inl ⟨m, hm, ?_⟩
          rw [← huser, hmk, show id = k.batchID from hbid]
    · have hnot : ∀ m ∈ mutations, k ≠ ⟨userID, m.key, id⟩ := fun m _ hk => huser (by rw [hk])
      rw [hother k.userID huser, ← hdb.indexed k]
      constructor
      · rintro (⟨m, hm, hk⟩ | ⟨h, -⟩)
        · exact absurd hk (hnot m hm)
        · exact h
      · intro h
        exact Or.inr ⟨h, hnot⟩

/-- A batch that is removed leaves the queue and the index. -/
theorem remove_ok (hdb : db.WellFormed) {batch : MutationBatch}
    (hmem : batch ∈ db.allMutationBatches userID) :
    ∃ db', db.removeMutationBatch userID batch = .ok db' ∧ db'.WellFormed ∧
      ∀ user, db'.allMutationBatches user = (db.allMutationBatches user).filter
        fun b => ¬(user = userID ∧ b.batchID = batch.batchID) := by
  let db' : LevelDB := {
    mutations := db.mutations.delete ⟨userID, batch.batchID⟩
    documentMutations := batch.mutations.foldl (fun t m => t.delete ⟨userID, m.key, batch.batchID⟩)
      db.documentMutations }
  have hqueue : ∀ user, db'.allMutationBatches user = (db.allMutationBatches user).filter
      fun b => ¬(user = userID ∧ b.batchID = batch.batchID) :=
    fun user => queue_delete db userID user batch.batchID _
  refine ⟨db', ?_, ⟨fun r hr => ?_, fun r hr => ?_, fun k => ?_⟩, hqueue⟩
  · rw [removeMutationBatch, Table.seek_of_mem (mem_queue.mp hmem)]
    simp only [Option.map_some, hardAssert_ok]
    rfl
  · exact hdb.known r (Table.mem_delete.mp hr).1
  · exact hdb.nonempty r (Table.mem_delete.mp hr).1
  · have hrow : (k, ()) ∈ db'.documentMutations.rows ↔ (k, ()) ∈ db.documentMutations.rows ∧
        ∀ m ∈ batch.mutations, k ≠ ⟨userID, m.key, batch.batchID⟩ :=
      Table.mem_foldl_delete (r := (k, ()))
        (fun m : Mutation => (⟨userID, m.key, batch.batchID⟩ : DocumentMutationKey))
        batch.mutations db.documentMutations
    rw [hrow, hdb.indexed k, hqueue]
    constructor
    · rintro ⟨⟨b, hb, hid, hkey⟩, hnot⟩
      refine ⟨b, List.mem_filter.mpr ⟨hb, decide_eq_true ?_⟩, hid, hkey⟩
      rintro ⟨huser, hbatch⟩
      rw [huser] at hb
      have hsame : b = batch := queue_unique hb hmem hbatch
      obtain ⟨m, hm, hmk⟩ := MutationBatch.mem_keys.mp hkey
      rw [hsame] at hm hid
      refine hnot m hm ?_
      rw [← huser, hmk, hid]
    · rintro ⟨b, hb, hid, hkey⟩
      obtain ⟨hb, hne⟩ := List.mem_filter.mp hb
      refine ⟨⟨b, hb, hid, hkey⟩, fun m _ hk => of_decide_eq_true hne ?_⟩
      rw [hid, hk]
      exact ⟨rfl, rfl⟩

/-- An empty queue has an empty index. -/
theorem check_ok (hdb : db.WellFormed) (userID : String) :
    db.performConsistencyCheck userID = .ok () := by
  unfold performConsistencyCheck
  split
  · rename_i hempty
    have hqueue := (db.isEmpty_iff userID).mp hempty
    refine hardAssert_ok ?_ _
    refine List.eq_nil_iff_forall_not_mem.mpr fun ⟨k, u⟩ hk => ?_
    have hrow : (k, ()) ∈ db.documentMutations.rows :=
      (List.dropWhile_sublist _).subset ((List.takeWhile_sublist _).subset hk)
    unfold Table.scan at hk
    have hinside := List.mem_takeWhile_imp hk
    have huser : k.userID = userID := of_decide_eq_true hinside
    obtain ⟨b, hb, -⟩ := (hdb.indexed k).mp hrow
    rw [huser, hqueue] at hb
    cases hb
  · rfl

/-! ### Ids after a restart -/

theorem batchID_le_of_lastRows :
    ∀ {rows : List (MutationKey × List Mutation)}, (rows.Pairwise fun r r' => r.1 < r'.1) →
      ∀ r ∈ rows, ∃ k ∈ lastRows rows, r.1.batchID ≤ k.batchID := by
  intro rows
  induction rows with
  | nil => intro _ r hr; cases hr
  | cons r rows ih =>
    intro h
    cases rows with
    | nil =>
      intro r' hr'
      rw [List.mem_singleton.mp hr']
      exact ⟨r.1, List.mem_cons_self, le_refl _⟩
    | cons r' rows =>
      obtain ⟨hr, hrows⟩ := List.pairwise_cons.mp h
      intro r₀ hr₀
      unfold lastRows
      split
      · rename_i huser
        rcases List.mem_cons.mp hr₀ with h₀ | h₀
        · obtain ⟨k, hk, hle⟩ := ih hrows r' List.mem_cons_self
          have hlt := (batchID_le_iff huser).mp (le_of_lt (hr r' List.mem_cons_self))
          rw [h₀]
          exact ⟨k, hk, le_trans hlt hle⟩
        · exact ih hrows r₀ h₀
      · rcases List.mem_cons.mp hr₀ with h₀ | h₀
        · rw [h₀]
          exact ⟨r.1, List.mem_cons_self, le_refl _⟩
        · obtain ⟨k, hk, hle⟩ := ih hrows r₀ h₀
          exact ⟨k, List.mem_cons_of_mem _ hk, hle⟩

theorem le_foldl_max (ks : List MutationKey) :
    ∀ id : BatchId, id ≤ ks.foldl (fun id k => if id < k.batchID then k.batchID else id) id ∧
      ∀ k ∈ ks, k.batchID ≤ ks.foldl (fun id k => if id < k.batchID then k.batchID else id) id := by
  induction ks with
  | nil => intro id; exact ⟨le_refl id, fun k hk => by cases hk⟩
  | cons k ks ih =>
    intro id
    obtain ⟨hid, hks⟩ := ih (if id < k.batchID then k.batchID else id)
    have hmax : id ≤ (if id < k.batchID then k.batchID else id) ∧
        k.batchID ≤ (if id < k.batchID then k.batchID else id) := by
      split
      · rename_i hlt
        exact ⟨le_of_lt hlt, le_refl _⟩
      · rename_i hlt
        exact ⟨le_refl _, not_lt.mp hlt⟩
    exact ⟨le_trans hmax.1 hid, List.forall_mem_cons.mpr ⟨le_trans hmax.2 hid, hks⟩⟩

theorem batchIdUnknown_lt_loadNextBatchID (db : LevelDB) : batchIdUnknown < db.loadNextBatchID :=
  Int.lt_add_one_iff.mpr (le_foldl_max _ batchIdUnknown).1

/-- The first id after a restart is behind the ids of all users. -/
theorem lt_loadNextBatchID (db : LevelDB) {b : MutationBatch}
    (h : b ∈ db.allMutationBatches userID) : b.batchID < db.loadNextBatchID := by
  obtain ⟨k, hk, hle⟩ := batchID_le_of_lastRows db.mutations.sorted _ (mem_queue.mp h)
  exact Int.lt_add_one_iff.mpr (le_trans hle ((le_foldl_max _ batchIdUnknown).2 k hk))

theorem mem_rows_of_lastRows {rows : List (MutationKey × List Mutation)} {k : MutationKey} :
    k ∈ lastRows rows → ∃ r ∈ rows, r.1 = k := by
  induction rows with
  | nil => intro hk; cases hk
  | cons r rows ih =>
    intro hk
    cases rows with
    | nil => exact ⟨r, List.mem_cons_self, (List.mem_singleton.mp hk).symm⟩
    | cons r' rows =>
      have hlater : k ∈ lastRows (r' :: rows) → ∃ r₀ ∈ r :: r' :: rows, r₀.1 = k := by
        intro hk'
        obtain ⟨r₀, hr₀, heq⟩ := ih hk'
        exact ⟨r₀, List.mem_cons_of_mem _ hr₀, heq⟩
      unfold lastRows at hk
      split at hk
      · exact hlater hk
      · rcases List.mem_cons.mp hk with hk | hk
        · exact ⟨r, List.mem_cons_self, hk.symm⟩
        · exact hlater hk

theorem foldl_max_lt {bound : BatchId} (ks : List MutationKey) (hks : ∀ k ∈ ks, k.batchID < bound) :
    ∀ id < bound, ks.foldl (fun id k => if id < k.batchID then k.batchID else id) id < bound := by
  induction ks with
  | nil => intro id hid; exact hid
  | cons k ks ih =>
    intro id hid
    obtain ⟨hk, hks⟩ := List.forall_mem_cons.mp hks
    refine ih hks _ ?_
    show (if id < k.batchID then k.batchID else id) < bound
    split
    · exact hk
    · exact hid

/-- Where the ids of all batches are below a bound, the first id after a restart does not pass it. -/
theorem loadNextBatchID_le {bound : BatchId} (hbound : batchIdUnknown < bound)
    (h : ∀ user, ∀ b ∈ db.allMutationBatches user, b.batchID < bound) : db.loadNextBatchID ≤ bound := by
  refine Int.add_one_le_iff.mpr (foldl_max_lt _ (fun k hk => ?_) _ hbound)
  obtain ⟨r, hr, hrk⟩ := mem_rows_of_lastRows hk
  have hmem : batchOf r ∈ db.allMutationBatches k.userID := by
    rw [mem_queue, ← hrk]
    exact hr
  rw [← hrk]
  exact h _ _ hmem

end LevelDB

end GiftGenie.MutationQueue
