import CloudDrive.Proofs.Store.Calls
import Mathlib.Data.List.Nodup

/-!
# What calls leave behind

A call that fails leaves the entries of a tree-shaped store alone, and a call that succeeds does its
one change and nothing else.

* `answer_atomic`: no call that is spelled well (`Spelled`) fails half-way, and each leaves a tree.
* `Catalog.Movable.relocation`: a move takes every entry of the subtree along, to a place that was
  free, and touches no other (`Catalog.Relocation`).
* `move_and_delete_exact`: what exactly a move that is accepted and a deletion that is reported do.
-/

namespace CloudDrive

open Path (Canonical IsComponent)
open Remote (Call DeleteReport)

/-! ## Calls that fail -/

/-- The paths that the call names are canonical, and the name of a new entry is a component. -/
def Remote.Call.Spelled : Call → Prop
  | .list path => Canonical path
  | .delete paths => ∀ path ∈ paths, Canonical path
  | .move source destination => Canonical source ∧ Canonical destination
  | .createDirectory parent name => Canonical parent ∧ IsComponent name
  | .upload file directory => Canonical directory ∧ IsComponent file.name

namespace Store

theorem catalog_answer_of_error (s : Store) (call : Call) {f : Remote.Failure}
    (hf : (s.answer call).1 = .error f) : (s.answer call).2.catalog = s.catalog := by
  cases call with
  | list path => exact s.catalog_answer_list path
  | delete paths =>
    rcases (s.delete_cases paths).2 with ⟨_, -, hc⟩ | ⟨gone, failed, hok, -⟩
    · exact hc
    · cases hf.symm.trans hok
  | move source destination =>
    rcases (s.move_cases source destination).2 with ⟨_, -, hc⟩ | ⟨hok, -⟩
    · exact hc
    · cases hf.symm.trans hok
  | createDirectory parent name =>
    rcases (s.createDirectory_cases parent name).2 with ⟨_, -, hc⟩ | ⟨hok, -⟩
    · exact hc
    · cases hf.symm.trans hok
  | upload file directory =>
    rcases (s.upload_cases file directory).2 with ⟨_, -, hc⟩ | ⟨hok, -⟩
    · exact hc
    · cases hf.symm.trans hok

theorem isTree_answer {s : Store} (hs : s.catalog.IsTree) {call : Call} (hcall : call.Spelled) :
    (s.answer call).2.catalog.IsTree := by
  cases call with
  | list path =>
    rw [catalog_answer_list]
    exact hs
  | delete paths => exact isTree_delete hs
  | move source destination => exact isTree_move hs fun _ => hcall.2
  | createDirectory parent name => exact isTree_createDirectory hs (.inl hcall.2)
  | upload file directory => exact isTree_upload hs hcall.2

/-- **Calls are atomic and keep the tree.** Whatever faults are set, a call that fails leaves every
entry as it was; and after any call the store is a tree, with nothing beneath a file. -/
theorem answer_atomic {s : Store} (hs : s.catalog.IsTree) {call : Call} (hcall : call.Spelled) :
    (∀ f, (s.answer call).1 = .error f → (s.answer call).2.catalog = s.catalog) ∧
      (s.answer call).2.catalog.IsTree ∧
      ∀ p e, (s.answer call).2.catalog.find? p = some e → e.isFile = true →
        ∀ q, Path.isWithin q p = true → q ≠ p → (s.answer call).2.catalog.find? q = none := by
  have htree := isTree_answer hs hcall
  exact ⟨fun f => s.catalog_answer_of_error call, htree,
    fun p e he hfile q hw hne => htree.find?_eq_none_beneath he hfile hw hne⟩

/-- A directory that holds a file, and a directory beside it. -/
def twoShelves : Store :=
  .ofCatalog (.ofEntries [.directory "/a" default, .file "/a/f" 7 default, .directory "/b" default])
    default

theorem isTree_twoShelves : twoShelves.catalog.IsTree := by
  have h : twoShelves.catalog.WellShaped := by decide
  exact h.tree

/-- A directory does not go into itself, and the attempt leaves all as it was. -/
theorem answer_atomic_intoItself :
    (twoShelves.answer (.move "/a" "/a/c")).1 = .error .moveIntoItself ∧
      (twoShelves.answer (.move "/a" "/a/c")).2.catalog = twoShelves.catalog ∧
      (twoShelves.answer (.move "/a" "/a/c")).2.catalog.find? "/a/f/c" = none := by
  have hspelled : (Call.move "/a" "/a/c").Spelled := by
    constructor <;> exact Path.canonical_iff.2 (by decide)
  obtain ⟨herror, -, hfile⟩ := answer_atomic isTree_twoShelves hspelled
  refine ⟨by decide, herror .moveIntoItself (by decide), ?_⟩
  exact hfile "/a/f" (.file "/a/f" 7 default) (by decide) (by decide) _
    (by decide) (by decide)

/-! ## Calls that succeed -/

/-- The entry as a move leaves it: carried along, or left where it is. -/
def Catalog.carriedAlong (source destination : String) (e : Entry) : Entry :=
  match Path.rebase e.path source destination with
  | some path => e.relocated path
  | none => e

/-- The second catalog is the first with the subtree at `source` taken to `destination`. -/
structure Catalog.Relocation (c c' : Catalog) (source destination : String) : Prop where
  /-- Nothing was in the way. -/
  vacant : ∀ p, Path.isWithin p destination = true → c.find? p = none
  /-- Within the destination lie the copies of what lay within the source. -/
  copied : ∀ p, Canonical p → Path.isWithin p destination = true →
    ∃ x, Path.isWithin x source = true ∧ Path.rebase x source destination = some p ∧
      c'.find? p = (c.find? x).map (·.relocated p)
  /-- Within the source lies nothing. -/
  gone : ∀ p, Path.isWithin p source = true → c'.find? p = none
  /-- Everywhere else lies what lay there. -/
  kept : ∀ p, Path.isWithin p source = false → Path.isWithin p destination = false →
    c'.find? p = c.find? p
  /-- No entry is lost, and none appears. -/
  perm : c'.entries.Perm (c.entries.map (carriedAlong source destination))

namespace Catalog

section
variable {c : Catalog} (hc : c.IsTree) {s d : String} (hm : c.Movable s d)
include hc hm

/-- An entry as the move leaves it is found at its path. -/
theorem find?_carriedAlong {e : Entry} (he : e ∈ c.entries) :
    (c.move s d).find? (carriedAlong s d e).path = some (carriedAlong s d e) := by
  have hf := find?_of_mem he
  have hs := hm.canonical_source hc
  refine (find?_move_eq_some hc hm).2 ?_
  unfold carriedAlong
  cases hq : Path.rebase e.path s d with
  | some q => exact .inr ⟨e.path, e, hf, hq, rfl⟩
  | none =>
    refine .inl ⟨Bool.eq_false_iff.2 fun hw => ?_, Bool.eq_false_iff.2 fun hw => ?_, hf⟩
    · obtain ⟨q, hq', -⟩ := Path.exists_rebase (hc.canonical _ e hf) hs hm.canonical hw
      cases hq.symm.trans hq'
    · cases hf.symm.trans (hm.find?_eq_none hc hw)

theorem exists_carriedAlong {e : Entry} (he : e ∈ (c.move s d).entries) :
    ∃ x ∈ c.entries, carriedAlong s d x = e := by
  have hf := find?_of_mem he
  rcases (find?_move_eq_some hc hm).1 hf with ⟨hps, -, h⟩ | ⟨x, y, hy, hq, hey⟩
  · have hne : e.path ≠ s := by
      rintro hes
      rw [hes, Path.isWithin_refl (hm.canonical_source hc)] at hps
      cases hps
    refine ⟨e, mem_of_find? h, ?_⟩
    unfold carriedAlong
    rw [Path.rebase_eq_none hps hne]
  · obtain rfl := path_of_find? hy
    refine ⟨y, mem_of_find? hy, ?_⟩
    unfold carriedAlong
    rw [hq]
    exact hey.symm

theorem carriedAlong_injective {x y : Entry} (hx : x ∈ c.entries) (hy : y ∈ c.entries)
    (h : carriedAlong s d x = carriedAlong s d y) : x = y := by
  have hs := hm.canonical_source hc
  have hpath : ∀ {e q}, e ∈ c.entries → Path.rebase e.path s d = some q →
      Path.rebase q d s = some e.path ∧ c.find? q = none := fun {e q} he hq => by
    have hcan := hc.canonical _ e (find?_of_mem he)
    exact ⟨Path.rebase_rebase hcan hs hm.canonical hq,
      hm.find?_eq_none hc (Path.isWithin_rebase hcan hs hm.canonical hq)⟩
  have heq : x.path = y.path := by
    have hp := congrArg Entry.path h
    unfold carriedAlong at hp
    cases hqx : Path.rebase x.path s d with
    | some q =>
      obtain ⟨hback, hfree⟩ := hpath hx hqx
      cases hqy : Path.rebase y.path s d with
      | some r =>
        obtain rfl : q = r := by simpa [hqx, hqy] using hp
        exact Option.some.inj (hback.symm.trans (hpath hy hqy).1)
      | none =>
        obtain rfl : q = y.path := by simpa [hqx, hqy] using hp
        cases (find?_of_mem hy).symm.trans hfree
    | none =>
      cases hqy : Path.rebase y.path s d with
      | some r =>
        obtain rfl : x.path = r := by simpa [hqx, hqy] using hp
        cases (find?_of_mem hx).symm.trans (hpath hy hqy).2
      | none => simpa [hqx, hqy] using hp
  exact Option.some.inj ((find?_of_mem hx).symm.trans (heq ▸ find?_of_mem hy))

theorem perm_move : (c.move s d).entries.Perm (c.entries.map (carriedAlong s d)) := by
  have hnodup : (c.entries.map (carriedAlong s d)).Nodup :=
    c.nodup_entries.map_on fun x hx y hy h => carriedAlong_injective hc hm hx hy h
  refine (List.perm_ext_iff_of_nodup (nodup_entries _) hnodup).2 fun e => ?_
  rw [List.mem_map]
  refine ⟨exists_carriedAlong hc hm, ?_⟩
  rintro ⟨x, hx, rfl⟩
  exact mem_of_find? (find?_carriedAlong hc hm hx)

/-- **A move carries the whole subtree**, and nothing else. -/
theorem Movable.relocation : c.Relocation (c.move s d) s d := by
  have hs := hm.canonical_source hc
  have htree : (c.move s d).IsTree := hc.move hm
  refine ⟨fun p => hm.find?_eq_none hc, fun p hp hw => ?_, fun p hw => ?_,
    fun p => find?_move_apart hc hm, perm_move hc hm⟩
  · obtain ⟨x, -, hx, hxs, hback⟩ := Path.exists_rebase hp hm.canonical hs hw
    exact ⟨x, hxs, hback, find?_move_target hc hm hx hback⟩
  · cases hf : (c.move s d).find? p with
    | none => rfl
    | some e => rw [← hf, find?_move_source hc hm (htree.canonical p e hf) hw]

end

end Catalog

/-- **Exactly what a move and a deletion do.** A move that is accepted takes the subtree at its source
to its destination, where nothing was. A deletion that is reported, whatever faults its paths have
met, mentions each path once, and takes out what lies within those that it calls deleted. -/
theorem move_and_delete_exact {s : Store} (hs : s.catalog.IsTree) :
    (∀ source destination, Canonical source → Canonical destination →
        (s.move source destination).1 = .ok () →
        s.catalog.Relocation (s.move source destination).2.catalog source destination) ∧
      ∀ paths report, (s.delete paths).1 = .ok report →
        Covers report paths ∧ ∀ p, (s.delete paths).2.catalog.find? p =
          if report.deleted.any (Path.isWithin p ·) then none else s.catalog.find? p := by
  constructor
  · intro source destination _ hd hok
    rcases (s.move_cases source destination).2 with ⟨f, hf, -⟩ | ⟨-, hm, hcat⟩
    · cases hok.symm.trans hf
    · rw [hcat]
      exact (movable_of_moveFailure? hd hm).relocation hs
  · intro paths report hok
    rcases (s.delete_cases paths).2 with ⟨f, hf, -⟩ | ⟨gone, failed, hr, hcat, hcovers, -⟩
    · cases hok.symm.trans hf
    · obtain rfl := Except.ok.inj (hok.symm.trans hr)
      refine ⟨hcovers, fun p => ?_⟩
      rw [hcat, Catalog.find?_eraseAllWithin]

/-- The shelf goes into the other, and then its file is deleted, which takes nothing else. -/
theorem move_and_delete_exact_twoShelves :
    twoShelves.catalog.Relocation (twoShelves.move "/a" "/b/a").2.catalog "/a" "/b/a" ∧
      Covers ⟨["/a"], [⟨"/a/f", (Remote.Failure.notFound "/a/f").reason⟩]⟩ ["/a", "/a/f"] ∧
      (twoShelves.delete ["/a", "/a/f"]).2.catalog.find? "/b" =
        some (.directory "/b" default) := by
  obtain ⟨hmove, hdelete⟩ := move_and_delete_exact isTree_twoShelves
  obtain ⟨hcovers, hfind⟩ := hdelete ["/a", "/a/f"]
    ⟨["/a"], [⟨"/a/f", (Remote.Failure.notFound "/a/f").reason⟩]⟩ (by decide)
  refine ⟨hmove "/a" "/b/a" ?_ ?_ (by decide), hcovers, ?_⟩
  · exact Path.canonical_iff.2 (by decide)
  · exact Path.canonical_iff.2 (by decide)
  · rw [hfind]
    decide

end Store

end CloudDrive
