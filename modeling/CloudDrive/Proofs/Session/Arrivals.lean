import CloudDrive.Proofs.Session.Duty
import CloudDrive.Proofs.Session.Held
import CloudDrive.Proofs.Session.Loads
import CloudDrive.Proofs.Session.Slips

/-!
# Listings in the order in which they arrive

Who only browses, by visits, refreshes and changes of the view, has cached of each directory the
listing that has arrived last (`get?_runTurns`), whichever load has brought it. So an answer that was
overtaken by that of a later load of the same directory takes its place all the same.

* `browse_cases`: what one turn of browsing comes to.
* `stays_iff_repeats`: overtaken answers do no harm exactly if they repeat what is shown.
-/

namespace CloudDrive.Session

open Remote (Failure)

variable {τ : Type}

/-! ## Arrivals -/

/-- A listing with which a load has ended. -/
structure Arrival where
  /-- The number of the load. Loads are numbered in the order in which they were asked. -/
  number : Nat
  /-- The directory that it asked for. -/
  path : String
  listing : Listing
  deriving DecidableEq

/-- What a command brings that has ended: the listing that it heard last, if it is a load. -/
def arrivalOf (errand : Errand) : Option Arrival :=
  if errand.label.command.isLoad then
    match errand.heard with
    | some (.reply (.list path) (.ok listing)) => some ⟨errand.number, path, listing⟩
    | _ => none
  else none

/-- The listing that arrives in a turn. -/
def Turn.arrival? (service : Service τ) (w : Crew τ) (turn : Turn τ) : Option Arrival :=
  (turn.run service w).1.bind arrivalOf

/-- The listings that arrive in several turns, in this order. -/
def arrivals (service : Service τ) (w : Crew τ) : List (Turn τ) → List Arrival
  | [] => []
  | turn :: turns =>
    (turn.arrival? service w).toList ++ arrivals service (turn.run service w).2 turns

/-- The listing of a directory that has arrived last. -/
def latest (key : String) (arrived : List Arrival) : Option Listing :=
  (arrived.filter (·.listing.path = key)).getLast?.map (·.listing)

@[simp] theorem latest_nil (key : String) : latest key [] = none := rfl

theorem latest_append (key : String) (before after : List Arrival) :
    latest key (before ++ after) = (latest key after).or (latest key before) := by
  simp [latest, List.filter_append, List.getLast?_append, Option.map_or]

theorem latest_singleton (key : String) (a : Arrival) :
    latest key [a] = if key = a.listing.path then some a.listing else none := by
  by_cases h : a.listing.path = key
  · simp [latest, h]
  · simp [latest, h, Ne.symm h]

/-! ## Browsing -/

theorem cache_loaded (generation : Nat) (listing : Listing) (s : Session) :
    (loaded generation listing s).cache = s.cache.insert listing := by
  unfold loaded
  simp only
  split <;> rfl

theorem path_loaded (generation : Nat) (listing : Listing) (s : Session) :
    (loaded generation listing s).path = s.path := by
  unfold loaded
  simp only
  split <;> rfl

theorem cache_loadFailed (generation : Nat) (path : String) (f : Failure) (s : Session) :
    (loadFailed generation path f s).cache = s.cache := by
  unfold loadFailed
  split <;> rfl

/-- The turn does not go beyond browsing: visits, refreshes, their replies, and changes of the view.
One command may be on its way that hears nothing. -/
def Turn.browses (held : Option Nat) : Turn τ → Bool
  | .ask command => command.isLoad
  | .go number => held ≠ some number
  | .act event => !event.isReset
  | _ => true

/-- Only loads are on their way, and perhaps one command that hears nothing. -/
def OnlyLoads (held : Option Nat) (w : Crew τ) : Prop :=
  ∀ job ∈ w.jobs, held ≠ some job.number → job.label.command.isLoad = true

/-- The listing that arrives is one of the directory that was asked for, if the service is honest. -/
theorem honest_of_hear {service : Service τ} (hhonest : ∀ t c, Honest c (service.answer t c).1)
    {p rest : Program Session (Except SessionError Answer)} {t t' : τ} {path : String}
    {listing : Listing}
    (hx : p.hear service t = some (.reply (.list path) (.ok listing), rest, t')) :
    listing.path = path := by
  cases p with
  | call c next =>
    have h := hhonest t c
    simp only [Program.hear, Option.some.injEq, Prod.mk.injEq, Exchange.reply.injEq] at hx
    obtain ⟨⟨rfl, hr⟩, -⟩ := hx
    rw [eq_of_heq hr] at h
    exact h
  | _ => cases hx

section
variable {held : Option Nat} {w : Crew τ}

theorem browse_ask (service : Service τ) {command : Command} (hload : command.isLoad = true) :
    (Turn.ask command).arrival? service w = none ∧
      ((Turn.ask command).run service w).2.state.cache = w.state.cache := by
  obtain ⟨rest, state, hdoes, hresume⟩ := Crowd.begin_does service w (obeys_loads command w.state)
  have hload : LoadTurn ⟨command, w.state⟩ none w.state state rest := (if_pos hload).mp hdoes
  have hcache : state.cache = w.state.cache := by
    cases hload with
    | refused e hpath => rfl
    | begins hpath hvisits hwaits => exact hvisits.cache
  simp only [Turn.arrival?, Turn.run]
  obtain ⟨-, -, hresume⟩ | ⟨-, hresume⟩ := hresume
  · rw [hresume]
    exact ⟨by simp [arrivalOf], hcache⟩
  · rw [hresume]
    exact ⟨rfl, hcache⟩

theorem browse_go (service : Service τ) (hw : w.Under loads) (honly : OnlyLoads held w)
    {number : Nat} (hheld : held ≠ some number) :
    (Turn.go number).arrival? service w = none ∧
        ((Turn.go number).run service w).2.state.cache = w.state.cache ∨
      ∃ a, (Turn.go number).arrival? service w = some a ∧
        ((Turn.go number).run service w).2.state.cache = w.state.cache.insert a.listing ∧
        ((Turn.go number).run service w).2.state.path = w.state.path ∧
        ((∀ t c, Honest c (service.answer t c).1) → a.listing.path = a.path) := by
  simp only [Turn.arrival?, Turn.run]
  rcases hw.go_does (fun _ => trivial) number with
    hgo | ⟨job, x, next, remote, rest, state, hjob, hx, hdoes, hresume⟩
  · rw [hgo]
    exact .inl ⟨rfl, rfl⟩
  obtain ⟨hmem, hnumber⟩ := Crowd.mem_of_job? hjob
  have hisLoad : job.label.command.isLoad = true := honly job hmem (hnumber ▸ hheld)
  have hload : LoadTurn job.label (some x) w.state state rest := (if_pos hisLoad).mp hdoes
  cases hload with
  | waits _ _ hwaits =>
    obtain ⟨a, ha, -⟩ | ⟨-, hresume⟩ := hresume
    · rw [ha] at hwaits
      cases hwaits
    · rw [hresume]
      exact .inl ⟨rfl, rfl⟩
  | @arrives path hpath listing =>
    obtain ⟨-, -, hresume⟩ | ⟨hnone, -⟩ := hresume
    · rw [hresume]
      exact .inr ⟨⟨job.number, path, listing⟩, by simp [arrivalOf, hisLoad],
        cache_loaded _ _ _, path_loaded _ _ _, fun hhonest => honest_of_hear hhonest hx⟩
    · cases hnone
  | fails hpath f =>
    obtain ⟨-, -, hresume⟩ | ⟨hnone, -⟩ := hresume
    · rw [hresume]
      exact .inl ⟨by simp [arrivalOf], cache_loadFailed _ _ _ _⟩
    · cases hnone

/-- **A turn of browsing** leaves the cache alone, unless a listing arrives, which is then cached. -/
theorem browse_cases (service : Service τ) (hw : w.Under loads) (honly : OnlyLoads held w)
    {turn : Turn τ} (hturn : turn.browses held = true) :
    turn.arrival? service w = none ∧ (turn.run service w).2.state.cache = w.state.cache ∨
      ∃ a, turn.arrival? service w = some a ∧
        (turn.run service w).2.state.cache = w.state.cache.insert a.listing ∧
        (turn.run service w).2.state.path = w.state.path ∧
        ((∀ t c, Honest c (service.answer t c).1) → a.listing.path = a.path) := by
  cases turn with
  | ask command => exact .inl (browse_ask service hturn)
  | go number => exact browse_go service hw honly (of_decide_eq_true hturn)
  | act event =>
    have he : event.isReset = false := by simpa [Turn.browses] using hturn
    refine .inl ⟨rfl, ?_⟩
    show (w.state.handle event).2.cache = w.state.cache
    rw [(handle_eq w.state he).1]
  | tick now => exact .inl ⟨rfl, rfl⟩
  | outside change => exact .inl ⟨rfl, rfl⟩

theorem onlyLoads_run (service : Service τ) (honly : OnlyLoads held w) {turn : Turn τ}
    (hturn : turn.browses held = true) : OnlyLoads held (turn.run service w).2 := by
  intro job hj hne
  rcases mem_jobs_run_cases service turn hj with
    hold | ⟨command, rfl, -, hlabel⟩ | ⟨old, hold, -, hnumber, hlabel⟩
  · exact honly job hold hne
  · rw [hlabel]
    exact hturn
  · rw [← hlabel]
    exact honly old hold (hnumber ▸ hne)

theorem mem_jobs_runTurns (service : Service τ) {job : Errand} (hj : job ∈ w.jobs)
    {turns : List (Turn τ)} (hturns : ∀ turn ∈ turns, turn.browses (some job.number) = true) :
    job ∈ (runTurns service w turns).jobs := by
  induction turns generalizing w with
  | nil => exact hj
  | cons turn turns ih =>
    obtain ⟨hturn, hturns⟩ := List.forall_mem_cons.1 hturns
    refine ih (mem_jobs_run service turn hj fun hgo => ?_) hturns
    rw [hgo] at hturn
    exact of_decide_eq_true hturn rfl

theorem onlyLoads_runTurns (service : Service τ) (honly : OnlyLoads held w) {turns : List (Turn τ)}
    (hturns : ∀ turn ∈ turns, turn.browses held = true) :
    OnlyLoads held (runTurns service w turns) := by
  induction turns generalizing w with
  | nil => exact honly
  | cons turn turns ih =>
    obtain ⟨hturn, hturns⟩ := List.forall_mem_cons.1 hturns
    exact ih (onlyLoads_run service honly hturn) hturns

/-- **What is cached of a directory** is the listing that has arrived last, if one has. -/
theorem get?_runTurns (service : Service τ) (hw : w.Under loads) (honly : OnlyLoads held w)
    {turns : List (Turn τ)} (hturns : ∀ turn ∈ turns, turn.browses held = true) (key : String) :
    (runTurns service w turns).state.cache.get? key =
      (latest key (arrivals service w turns)).or (w.state.cache.get? key) := by
  induction turns generalizing w with
  | nil => rfl
  | cons turn turns ih =>
    obtain ⟨hturn, hturns⟩ := List.forall_mem_cons.1 hturns
    rw [runTurns_cons, ih ((kept_loads service).under_run hw turn)
      (onlyLoads_run service honly hturn) hturns, arrivals, latest_append, Option.or_assoc]
    congr 1
    rcases browse_cases service hw honly hturn with ⟨hnone, hcache⟩ | ⟨a, ha, hcache, -⟩
    · rw [hnone, hcache]
      rfl
    · rw [ha, hcache, Cache.get?_insert, Option.toList_some, latest_singleton]
      split <;> rfl

end

/-! ## Overtaken answers -/

/-- The turn brings the directory that is shown a listing that was overtaken: one has arrived for it
before that a later load has asked for. -/
def Overtaken (service : Service τ) (w : Crew τ) (before : List (Turn τ)) (turn : Turn τ)
    (a : Arrival) : Prop :=
  turn.arrival? service (runTurns service w before) = some a ∧
    a.path = (runTurns service w before).state.path ∧
    ∃ later ∈ arrivals service w before, later.path = a.path ∧ a.number < later.number

/-- **An older answer** does not change what is shown of the directory for which a newer one has come,
in a run of visits and refreshes, exactly if it repeats the listing that has arrived last. -/
theorem stays_iff_repeats {service : Service τ} (hhonest : ∀ t c, Honest c (service.answer t c).1)
    (c : Config) (now : Instant) (t : τ) {turns : List (Turn τ)}
    (hturns : ∀ turn ∈ turns, turn.browses none = true) :
    (∀ before turn after a, before ++ turn :: after = turns →
        Overtaken service (.of (start c now) t) before turn a →
        (runTurns service (.of (start c now) t) (before ++ [turn])).state.listing =
          (runTurns service (.of (start c now) t) before).state.listing) ↔
      ∀ before turn after a, before ++ turn :: after = turns →
        Overtaken service (.of (start c now) t) before turn a →
        latest a.path (arrivals service (.of (start c now) t) before) = some a.listing := by
  refine forall_congr' fun before => forall_congr' fun turn => forall_congr' fun after =>
    forall_congr' fun a => forall_congr' fun hsplit => forall_congr' fun hover => ?_
  subst hsplit
  obtain ⟨hbefore, hturn⟩ := List.forall_mem_append.1 hturns
  obtain ⟨hturn, -⟩ := List.forall_mem_cons.1 hturn
  obtain ⟨ha, hpath, -⟩ := hover
  have honly : OnlyLoads none (Crew.of (start c now) t) := by simp [OnlyLoads, Crew.of]
  have hlisting : ∀ key, (runTurns service (.of (start c now) t) before).state.cache.get? key =
      latest key (arrivals service (.of (start c now) t) before) := by
    intro key
    rw [get?_runTurns service (under_of trivial t) honly hbefore]
    exact Option.or_none
  rw [runTurns_append, runTurns_cons, runTurns_nil]
  have hw := (kept_loads service).under_runTurns (under_of (s := start c now) trivial t) before
  have honly' := onlyLoads_runTurns service honly hbefore
  generalize runTurns service (.of (start c now) t) before = w at ha hpath hlisting hw honly' ⊢
  rcases browse_cases service hw honly' hturn with ⟨hnone, -⟩ | ⟨b, hb, hcache, hsame, hkey⟩
  · rw [ha] at hnone
    cases hnone
  · rw [ha] at hb
    cases hb
    unfold Session.listing
    rw [hcache, hsame, ← hpath, hlisting, Cache.get?_insert, if_pos (hkey hhonest).symm, eq_comm]

/-- A store with two files. -/
def twoFileStore : Store :=
  .ofCatalog (.ofEntries [.file "/a" 3 default, .file "/b" 3 default]) default

/-- A load and a refresh of the same directory; the refresh is answered first. -/
def answeredRefresh : List (Turn Store) := [.ask (.navigate "/"), .ask .refresh, .go 1]

/-- The session in which only the first load is still on its way. -/
def afterRefresh : Crew Store :=
  runTurns .ofStore (.of (start {} default) fileStore) answeredRefresh

/-- If nothing has changed in the store, the answer to the load repeats the one to the refresh. -/
theorem stays_iff_repeats_answeredRefresh :
    (∀ t c, Honest c (Service.ofStore.answer t c).1) ∧
      (∀ turn ∈ answeredRefresh ++ [.go 0], turn.browses none = true) ∧
      ∃ a, Overtaken .ofStore (.of (start {} default) fileStore) answeredRefresh (.go 0) a ∧
        ((Turn.go 0).run .ofStore afterRefresh).2.state.listing = afterRefresh.state.listing := by
  have hturns : ∀ turn ∈ answeredRefresh ++ [.go 0], turn.browses none = true := by decide
  have ha : (Turn.go 0).arrival? .ofStore afterRefresh =
      some ⟨0, "/", .ofEntries "/" [.file "/a" 3 default]⟩ := by decide
  have hrepeats : ∀ before turn after a, before ++ turn :: after = answeredRefresh ++ [.go 0] →
      Overtaken .ofStore (.of (start {} default) fileStore) before turn a →
      latest a.path (arrivals .ofStore (.of (start {} default) fileStore) before) =
        some a.listing := by
    intro before turn after a hsplit hover
    replace hsplit : before ++ turn :: after =
      [.ask (.navigate "/"), .ask .refresh, .go 1, .go 0] := hsplit
    obtain ⟨harrival, -, later, hlater, -⟩ := hover
    -- nothing has arrived before the refresh is answered
    match before, turn, after, hsplit with
    | [], _, _, _ => cases hlater
    | [_], _, _, rfl => cases hlater
    | [_, _], _, _, rfl => cases hlater
    | [_, _, _], _, _, rfl =>
      have heq : (Turn.go 0).arrival? .ofStore afterRefresh = some a := harrival
      rw [ha] at heq
      cases heq
      decide
    | _ :: _ :: _ :: _ :: _, _, _, hlong => simp at hlong
  refine ⟨honest_ofStore, hturns, _, ⟨ha, by decide, by decide⟩, ?_⟩
  exact (stays_iff_repeats honest_ofStore {} default fileStore hturns).2 hrepeats answeredRefresh
    (.go 0) [] _ rfl ⟨ha, by decide, by decide⟩

/-- If a file has been stored meanwhile, the answer to the load takes the place of the newer one. -/
theorem overtaken_answer_replaces :
    (∀ turn ∈ answeredRefresh ++ [.outside (fun _ => twoFileStore), .go 0],
        turn.browses none = true) ∧
      (∃ a, Overtaken .ofStore (.of (start {} default) fileStore)
        (answeredRefresh ++ [.outside fun _ => twoFileStore]) (.go 0) a) ∧
      (runTurns .ofStore afterRefresh [.outside fun _ => twoFileStore, .go 0]).state.listing ≠
        (runTurns .ofStore afterRefresh [.outside fun _ => twoFileStore]).state.listing := by
  refine ⟨by decide, ⟨⟨0, "/", .ofEntries "/" [.file "/a" 3 default, .file "/b" 3 default]⟩, ?_⟩,
    by decide⟩
  exact ⟨by decide, by decide, by decide⟩

end CloudDrive.Session
