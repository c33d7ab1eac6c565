import GiftGenie.Quiz
import GiftGenie.Library.Histories

/-!
# Choices on the quiz page

Each build of `QuizPage` makes a tile for every option.  The `onTap` of a tile removes the option from
`_picked` or adds it, as `saved` says, and `saved` is what `_picked` contained when the tile was built.

A tap schedules a build, so mostly the next tap finds a new tile.  Where an option is tapped again
before that, the second tap does what the first one did: it adds the option once more, or removes it
though it is gone.  `follows_taps_iff`: the choices follow the taps exactly as long as the page is
rebuilt between any two taps on one option.
-/

set_option autoImplicit false

namespace GiftGenie.QuizChoices

open GiftGenie.Library GiftGenie.Library.Histories GiftGenie.Quiz

/-- A tile, with the value of `saved` that its icon shows and its `onTap` uses. -/
structure ListTile where
  option : String
  saved : Bool
  deriving DecidableEq, Repr

/-- `list` is `_list`, the tiles of the last build. -/
structure QuizPageState where
  picked : List String := []
  list : List ListTile := []
  mounted : Bool := true
  deriving DecidableEq, Repr

inductive Event where
  | tap (option : String)
  | build
  deriving DecidableEq, Repr

/-- `_buildOption`. -/
def buildOption (picked : List String) (option : String) : ListTile where
  option := option
  saved := picked.contains option

/-- `_buildList`. -/
def buildList (picked : List String) : List ListTile := options.map (buildOption picked)

namespace QuizPageState

def build (s : QuizPageState) : QuizPageState := { s with list := buildList s.picked }

/-- The `onTap` of a tile. -/
def onTap (s : QuizPageState) (tile : ListTile) : QuizPageState :=
  if s.mounted then
    if tile.saved then { s with picked := s.picked.erase tile.option }
    else { s with picked := s.picked ++ [tile.option] }
  else s

/-- The page after its first build. -/
def start : QuizPageState := build {}

end QuizPageState

def step (s : QuizPageState) : Event → Option QuizPageState
  | .tap option => (s.list.find? (·.option = option)).map s.onTap
  | .build => some s.build

/-! ### What the choices should be -/

/-- How often the option was tapped. -/
def taps (option : String) (events : List Event) : ℕ := events.count (.tap option)

/-- No option is picked twice, and an option is picked if it was tapped an odd number of times. -/
def FollowsTaps (events : List Event) (s : QuizPageState) : Prop :=
  s.picked.Nodup ∧ ∀ option, option ∈ s.picked ↔ Odd (taps option events)

/-- Between any two taps on one option the page is rebuilt. -/
def Rebuilt (events : List Event) : Prop :=
  ∀ option before between after,
    before ++ .tap option :: (between ++ .tap option :: after) = events → .build ∈ between

/-- The page was rebuilt since the option was last tapped. -/
def Rested (option : String) (events : List Event) : Prop :=
  ∀ before between, before ++ .tap option :: between = events → .build ∈ between

/-- A tap on an option comes only after a build. -/
def FreshTap (events : List Event) : Event → Prop
  | .tap option => Rested option events
  | .build => True

theorem rebuilt_iff (events : List Event) : Rebuilt events ↔ AllowedAfter FreshTap events := by
  constructor
  · intro h before e after hsplit
    cases e with
    | build => trivial
    | tap option =>
      intro front between hfront
      refine h option front between after ?_
      rw [← hsplit, ← hfront, List.append_assoc, List.cons_append]
  · intro h option before between after hsplit
    have htap : Rested option (before ++ .tap option :: between) := by
      refine h (before ++ .tap option :: between) (.tap option) after ?_
      rw [← hsplit, List.append_assoc, List.cons_append]
    exact htap before between rfl

theorem rested_nil {option : String} : Rested option [] := fun before between hsplit =>
  absurd hsplit (List.append_ne_nil_of_right_ne_nil before (List.cons_ne_nil _ between))

theorem rested_concat {option : String} {events : List Event} {e : Event} :
    Rested option (events ++ [e]) ↔ e = .build ∨ e ≠ .tap option ∧ Rested option events := by
  constructor
  · intro h
    by_cases hbuild : e = .build
    · exact Or.inl hbuild
    · refine Or.inr ⟨fun htap => ?_, fun before between hsplit => ?_⟩
      · exact absurd (h events [] (by rw [htap])) List.not_mem_nil
      · have hmem : .build ∈ between ++ [e] :=
          h before (between ++ [e]) (append_cons_eq_concat.mpr (Or.inr ⟨between, rfl, hsplit⟩))
        exact (List.mem_append.mp hmem).resolve_right fun he => hbuild (List.mem_singleton.mp he).symm
  · intro h before between hsplit
    rcases append_cons_eq_concat.mp hsplit with ⟨-, htap, -⟩ | ⟨rest, rfl, hevents⟩
    · rcases h with rfl | hrested
      · exact absurd htap Event.noConfusion
      · exact absurd htap.symm hrested.1
    · rcases h with hbuild | hrested
      · exact List.mem_append_right rest (List.mem_singleton.mpr hbuild.symm)
      · exact List.mem_append_left [e] (hrested.2 before rest hevents)

@[simp] theorem rested_build {option : String} {events : List Event} :
    Rested option (events ++ [.build]) :=
  rested_concat.mpr (Or.inl rfl)

@[simp] theorem rested_tap {option x : String} {events : List Event} :
    Rested x (events ++ [.tap option]) ↔ option ≠ x ∧ Rested x events := by
  rw [rested_concat]
  simp

/-! ### One tap -/

variable {s t : QuizPageState} {shown : List String} {option : String} {events : List Event}

/-- A tap does what the tile of the last build says. -/
theorem picked_tap (hmounted : s.mounted = true) (hlist : s.list = buildList shown)
    (hstep : step s (.tap option) = some t) :
    option ∈ options ∧ t = { s with picked :=
      if option ∈ shown then s.picked.erase option else s.picked ++ [option] } := by
  obtain ⟨tile, htile, rfl⟩ := Option.map_eq_some_iff.mp hstep
  have hoption : tile.option = option := by simpa using List.find?_some htile
  have hmem : tile ∈ buildList shown := hlist ▸ List.mem_of_find?_eq_some htile
  obtain ⟨o, ho, rfl⟩ := List.mem_map.mp hmem
  obtain rfl : o = option := hoption
  refine ⟨ho, ?_⟩
  by_cases hshown : o ∈ shown
  · simp [QuizPageState.onTap, hmounted, buildOption, hshown]
  · simp [QuizPageState.onTap, hmounted, buildOption, hshown]

theorem odd_taps_self : Odd (taps option (events ++ [.tap option])) ↔ ¬Odd (taps option events) := by
  rw [taps, List.count_append, List.count_singleton_self, Nat.odd_add_one]
  rfl

theorem taps_ne {x : String} (hx : x ≠ option) :
    taps x (events ++ [.tap option]) = taps x events := by
  have hne : (Event.tap option == Event.tap x) = false := by simp [Ne.symm hx]
  rw [taps, List.count_append, List.count_singleton, hne]
  rfl

theorem taps_build {x : String} : taps x (events ++ [.build]) = taps x events := by
  rw [taps, List.count_append]
  rfl

/-- What a tap on a fresh tile does is what it should do. -/
theorem follows_tap (h : FollowsTaps events s)
    (hpicked : t.picked = ListSet.toggleFirst s.picked option) :
    FollowsTaps (events ++ [.tap option]) t := by
  have hcount : ∀ x, s.picked.count x ≤ 1 := List.nodup_iff_count_le_one.mp h.1
  refine ⟨List.nodup_iff_count_le_one.mpr fun x => ?_, fun x => ?_⟩
  · rw [hpicked]
    by_cases hx : x = option
    · subst hx
      exact ListSet.count_toggleFirst_self_le (hcount x)
    · rw [ListSet.count_toggleFirst_ne hx]
      exact hcount x
  · rw [hpicked]
    by_cases hx : x = option
    · subst hx
      rw [ListSet.mem_toggleFirst_self (hcount x), odd_taps_self, h.2 x]
    · rw [ListSet.mem_toggleFirst_ne hx, taps_ne hx, h.2 x]

/-- What a tap on a stale tile does is never what it should do. -/
theorem not_follows_tap (h : FollowsTaps events s) (hstale : ¬(option ∈ shown ↔ option ∈ s.picked))
    (hpicked : t.picked =
      if option ∈ shown then s.picked.erase option else s.picked ++ [option]) :
    ¬FollowsTaps (events ++ [.tap option]) t := by
  intro ht
  by_cases hshown : option ∈ shown
  · have hgone : option ∉ s.picked := fun hmem => hstale (iff_of_true hshown hmem)
    rw [if_pos hshown, List.erase_of_not_mem hgone] at hpicked
    have hodd : Odd (taps option (events ++ [.tap option])) :=
      odd_taps_self.mpr (mt (h.2 option).mpr hgone)
    exact hgone (hpicked ▸ (ht.2 option).mpr hodd)
  · have hthere : option ∈ s.picked := by
      by_contra hmem
      exact hstale (iff_of_false hshown hmem)
    rw [if_neg hshown] at hpicked
    have hnodup : (s.picked ++ [option]).Nodup := hpicked ▸ ht.1
    exact List.disjoint_of_nodup_append hnodup hthere List.mem_cons_self

/-! ### Runs -/

/-- What holds while every tap finds a fresh tile: the tiles show what was picked at the last build,
and that is out of date for the options tapped since. -/
structure Choosing (events : List Event) (s : QuizPageState) : Prop where
  mounted : s.mounted = true
  known : ∀ option ∈ s.picked, option ∈ options
  follows : FollowsTaps events s
  tiles : ∃ shown, s.list = buildList shown ∧
    ∀ option, (option ∈ shown ↔ option ∈ s.picked) ↔ Rested option events

theorem choosing_start : Choosing [] QuizPageState.start where
  mounted := rfl
  known := fun option h => absurd h List.not_mem_nil
  follows := by
    refine ⟨List.nodup_nil, fun option => ?_⟩
    exact iff_of_false List.not_mem_nil (Nat.not_odd_iff_even.mpr Even.zero)
  tiles := ⟨[], rfl, fun option => iff_of_true Iff.rfl rested_nil⟩

theorem choosing_build (h : Choosing events s) : Choosing (events ++ [.build]) s.build where
  mounted := h.mounted
  known := h.known
  follows := by
    refine ⟨h.follows.1, fun option => ?_⟩
    rw [taps_build]
    exact h.follows.2 option
  tiles := ⟨s.picked, rfl, fun option => iff_of_true Iff.rfl rested_build⟩

theorem choosing_tap (h : Choosing events s) (hrested : Rested option events)
    (hstep : step s (.tap option) = some t) : Choosing (events ++ [.tap option]) t := by
  obtain ⟨shown, hlist, htiles⟩ := h.tiles
  obtain ⟨hoption, rfl⟩ := picked_tap h.mounted hlist hstep
  have hfresh : option ∈ shown ↔ option ∈ s.picked := (htiles option).mpr hrested
  have hpicked : (if option ∈ shown then s.picked.erase option else s.picked ++ [option]) =
      ListSet.toggleFirst s.picked option := by
    rw [ListSet.toggleFirst]
    exact if_congr hfresh rfl rfl
  have hcount : s.picked.count option ≤ 1 := List.nodup_iff_count_le_one.mp h.follows.1 option
  rw [hpicked]
  refine ⟨h.mounted, fun x hx => ?_, follows_tap h.follows rfl, shown, hlist, fun x => ?_⟩
  · by_cases hxo : x = option
    · rw [hxo]
      exact hoption
    · exact h.known x ((ListSet.mem_toggleFirst_ne hxo).mp hx)
  · rw [rested_tap]
    by_cases hxo : x = option
    · subst hxo
      refine iff_of_false (fun hstill => ?_) fun hne => hne.1 rfl
      -- the tile still shows what the tap has changed
      have hflip := ListSet.mem_toggleFirst_self hcount
      exact iff_not_self (hfresh.symm.trans (hstill.trans hflip))
    · rw [ListSet.mem_toggleFirst_ne hxo, htiles x]
      exact (and_iff_right (Ne.symm hxo)).symm

theorem choosing_step (es : List Event) (s : QuizPageState) (e : Event) (t : QuizPageState)
    (h : Choosing es s) (hfresh : FreshTap es e) (hstep : step s e = some t) :
    Choosing (es ++ [e]) t := by
  cases e with
  | tap option => exact choosing_tap h hfresh hstep
  | build =>
    obtain rfl : s.build = t := Option.some.inj hstep
    exact choosing_build h

theorem fresh_of_follows (es : List Event) (s : QuizPageState) (e : Event) (t : QuizPageState)
    (h : Choosing es s) (hstep : step s e = some t) (ht : FollowsTaps (es ++ [e]) t) :
    FreshTap es e := by
  cases e with
  | build => trivial
  | tap option =>
    by_contra hstale
    obtain ⟨shown, hlist, htiles⟩ := h.tiles
    obtain ⟨-, rfl⟩ := picked_tap h.mounted hlist hstep
    exact not_follows_tap h.follows (mt (htiles option).mp hstale) rfl ht

/-- **When the choices follow the taps.**  In every run of taps and builds from the first build on:
no option is ever picked twice and each is picked exactly after an odd number of taps, if and only if
the page is rebuilt between any two taps on one option. -/
theorem follows_taps_iff {events : List Event} {s : QuizPageState}
    (hrun : Machine.run step .start events = some s) :
    AllPrefixes step FollowsTaps .start events ↔ Rebuilt events := by
  rw [rebuilt_iff]
  exact allPrefixes_iff choosing_start (fun _ _ h => h.follows) choosing_step fresh_of_follows
    events s hrun

/-- Games is taken back after a build. -/
theorem follows_taps_games :
    AllPrefixes step FollowsTaps .start [.tap "Games", .build, .tap "Games"] := by
  have hrebuilt : Rebuilt ([] ++ [.tap "Games"] ++ [.build] ++ [.tap "Games"]) := by
    rw [rebuilt_iff, allowedAfter_concat, allowedAfter_concat, allowedAfter_concat]
    exact ⟨⟨⟨allowedAfter_nil, rested_nil⟩, trivial⟩, rested_build⟩
  exact (follows_taps_iff rfl).mpr hrebuilt

/-- Two taps before the next build pick the option twice. -/
theorem not_follows_taps :
    ¬∀ events s, Machine.run step .start events = some s → FollowsTaps events s := by
  intro h
  have htwice := (h [.tap "Games", .tap "Games"] _ rfl).1
  exact absurd htwice (by decide)

/-- What SUBMIT finds after such a run: each option that matches and was tapped an odd number of times,
once. -/
theorem matchCount_picked (hrun : Machine.run step .start events = some s) (h : Rebuilt events)
    (ds : DocumentSnapshot) :
    matchCount s.picked ds =
      options.countP fun option => Odd (taps option events) ∧ Matches ds option := by
  have hchoosing : Choosing events s :=
    invariant_of_allowed choosing_start choosing_step events s ((rebuilt_iff events).mp h) hrun
  have hnodup : options.Nodup := by decide
  have hperm : s.picked.Perm (options.filter fun option => Odd (taps option events)) := by
    refine (List.perm_ext_iff_of_nodup hchoosing.follows.1 (hnodup.filter _)).mpr fun option => ?_
    rw [List.mem_filter, decide_eq_true_eq, ← hchoosing.follows.2 option]
    exact ⟨fun hmem => ⟨hchoosing.known option hmem, hmem⟩, fun hmem => hmem.2⟩
  rw [matchCount, hperm.countP_eq, List.countP_filter]
  refine List.countP_congr fun option _ => ?_
  simp only [decide_eq_true_eq, Bool.and_eq_true, and_comm]

end GiftGenie.QuizChoices
