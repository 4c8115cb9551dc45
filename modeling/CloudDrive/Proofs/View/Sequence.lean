import CloudDrive.View
import Mathlib.Data.List.Nodup
import Mathlib.Data.List.Pairwise

/-!
# What is shown, and in which order

The order of entries is total and transitive in every sort mode, and the sort that arranges them is
stable. By name, two entries tie only if they have one name; so the order of a listing without
repeated names does not matter, and the descending order is the ascending one read backwards.

* `transCmp_compareEntries`: the order of entries.
* `visible_eq_groups`, `pairwise_group`, `filter_ties_visible`: directories first, the order of the
  mode, and the order of the listing for entries that tie.
* `visible_eq_of_pairwise`: what is in that order already is shown as it is.
* `visible_perm`, `group_nameDesc`: listings without repeated names, sorted by name.
* `visible_sequence`: all of it.
-/

namespace CloudDrive

/-! ## Orders -/

theorem transCmp_comap {α β : Type} (key : α → β) (cmp : β → β → Ordering) [Std.TransCmp cmp] :
    Std.TransCmp fun a b => cmp (key a) (key b) where
  eq_swap := Std.OrientedCmp.eq_swap
  isLE_trans := Std.TransCmp.isLE_trans

instance : Std.TransCmp Date.compare :=
  inferInstanceAs (Std.TransCmp
    (compareLex (compareOn Date.year) (compareLex (compareOn Date.month) (compareOn Date.day))))

instance : Std.TransCmp Instant.compare :=
  have := transCmp_comap Instant.date Date.compare
  inferInstanceAs (Std.TransCmp (compareLex (fun a b : Instant => Date.compare a.date b.date)
    (compareLex (compareOn Instant.second) (compareOn Instant.nano))))

namespace View

open Text (nameKey)

instance : Std.TransCmp compareNames :=
  inferInstanceAs (Std.TransCmp
    (compareLex (compareOn fun e : Entry => nameKey e.name) (compareOn Entry.name)))

theorem compareNames_eq_iff {a b : Entry} : compareNames a b = .eq ↔ a.name = b.name := by
  unfold compareNames
  rw [Ordering.then_eq_eq, Std.compare_eq_iff_eq, Std.compare_eq_iff_eq]
  exact ⟨And.right, fun h => ⟨congrArg nameKey h, h⟩⟩

/-- In every mode the order is total and transitive. -/
instance transCmp_sortMode (mode : SortMode) : Std.TransCmp mode.compare := by
  cases mode with
  | nameAsc => exact inferInstanceAs (Std.TransCmp compareNames)
  | nameDesc => exact @Std.TransCmp.opposite _ compareNames _
  | dateDesc =>
    have := transCmp_comap Entry.modified Instant.compare
    exact @Std.TransCmp.opposite _ (fun a b : Entry => a.modified.compare b.modified) _
  | dateAsc => exact transCmp_comap Entry.modified Instant.compare

/-- Directories first means by kind first. -/
theorem compareEntries_eq (mode : SortMode) (a b : Entry) :
    compareEntries mode a b = (compare b.isDirectory a.isDirectory).then (mode.compare a b) := by
  unfold compareEntries
  cases a.isDirectory <;> cases b.isDirectory <;> rfl

instance transCmp_compareEntries (mode : SortMode) : Std.TransCmp (compareEntries mode) := by
  have : Std.TransCmp fun a b : Entry => compare b.isDirectory a.isDirectory :=
    @Std.TransCmp.opposite _ (compareOn Entry.isDirectory) _
  have hlex : compareEntries mode =
      compareLex (fun a b => compare b.isDirectory a.isDirectory) mode.compare :=
    funext fun a => funext fun b => compareEntries_eq mode a b
  rw [hlex]
  infer_instance

theorem eq_of_isLE_of_isLE {cmp : Entry → Entry → Ordering} [Std.TransCmp cmp] {a b : Entry}
    (h : (cmp a b).isLE = true) (h' : (cmp b a).isLE = true) : cmp a b = .eq := by
  rw [@Std.OrientedCmp.eq_swap _ cmp _ b a] at h'
  cases hcmp : cmp a b with
  | eq => rfl
  | lt => simp [hcmp] at h'
  | gt => simp [hcmp] at h

theorem isLE_total (cmp : Entry → Entry → Ordering) [Std.TransCmp cmp] (a b : Entry) :
    ((cmp a b).isLE || (cmp b a).isLE) = true := by
  rw [@Std.OrientedCmp.eq_swap _ cmp _ b a]
  cases cmp a b <;> rfl

/-! ## The sequence of a listing -/

/-- The directories of a sequence, or its files. -/
def group (directories : Bool) (entries : List Entry) : List Entry :=
  entries.filter (·.isDirectory == directories)

/-- Does an entry tie with `e`? -/
def ties (mode : SortMode) (e a : Entry) : Bool := compareEntries mode e a == .eq

section
variable (entries : List Entry) (o : Options) (now : Instant)

/-- **Exactly the accepted entries** are visible, each as often as it is listed. -/
theorem perm_visible : (visible entries o now).Perm (entries.filter (o.accepts now)) :=
  List.mergeSort_perm _ _

theorem pairwise_visible :
    (visible entries o now).Pairwise fun a b => (compareEntries o.sort a b).isLE = true :=
  List.pairwise_mergeSort (fun _ _ _ => Std.TransCmp.isLE_trans) (isLE_total _) _

theorem pairwise_isDirectory :
    (visible entries o now).Pairwise fun a b => b.isDirectory = true → a.isDirectory = true := by
  refine (pairwise_visible entries o now).imp fun {a b} hle hb => ?_
  rw [compareEntries_eq, hb] at hle
  cases ha : a.isDirectory with
  | true => rfl
  | false =>
    rw [ha] at hle
    cases hle

theorem visible_eq_groups :
    visible entries o now =
      group true (visible entries o now) ++ group false (visible entries o now) := by
  have hfirst := pairwise_isDirectory entries o now
  generalize visible entries o now = shown at hfirst
  induction hfirst with
  | nil => rfl
  | @cons a shown ha _ ih =>
    cases hd : a.isDirectory with
    | true => simpa [group, hd] using ih
    | false =>
      have hfiles : ∀ b ∈ a :: shown, b.isDirectory = false := by
        refine List.forall_mem_cons.2 ⟨hd, fun b hb => ?_⟩
        exact Bool.eq_false_iff.2 fun hbd => absurd (ha b hb hbd) (by simp [hd])
      have htrue : group true (a :: shown) = [] :=
        List.filter_eq_nil_iff.2 fun b hb => by simp [hfiles b hb]
      have hfalse : group false (a :: shown) = a :: shown :=
        List.filter_eq_self.2 fun b hb => by simp [hfiles b hb]
      rw [htrue, hfalse, List.nil_append]

theorem pairwise_group (directories : Bool) :
    (group directories (visible entries o now)).Pairwise
      fun a b => (o.sort.compare a b).isLE = true := by
  refine ((pairwise_visible entries o now).filter _).imp_of_mem fun {a b} ha hb hle => ?_
  have ha := eq_of_beq (List.mem_filter.1 ha).2
  have hb := eq_of_beq (List.mem_filter.1 hb).2
  rw [compareEntries_eq, ha, hb] at hle
  simpa using hle

/-- **Entries that tie** keep the order of the listing. -/
theorem filter_ties_visible (e : Entry) :
    (visible entries o now).filter (ties o.sort e) =
      (entries.filter (o.accepts now)).filter (ties o.sort e) := by
  have htie : ∀ {a}, ties o.sort e a = true → compareEntries o.sort e a = .eq := eq_of_beq
  have hsorted : ((entries.filter (o.accepts now)).filter (ties o.sort e)).Pairwise
      fun a b => (compareEntries o.sort a b).isLE = true := by
    refine List.pairwise_of_forall_mem_list fun a ha b hb => ?_
    have ha := htie (List.mem_filter.1 ha).2
    have hb := htie (List.mem_filter.1 hb).2
    have hba : (compareEntries o.sort a e).isLE = true := by
      rw [@Std.OrientedCmp.eq_swap _ (compareEntries o.sort) _ a e, ha]
      rfl
    exact Std.TransCmp.isLE_trans hba (by rw [hb]; rfl)
  have hsub := (List.sublist_mergeSort (fun _ _ _ => Std.TransCmp.isLE_trans)
    (isLE_total (compareEntries o.sort)) hsorted List.filter_sublist).filter (ties o.sort e)
  rw [List.filter_eq_self.2 fun a ha => (List.mem_filter.1 ha).2] at hsub
  exact (hsub.eq_of_length ((perm_visible entries o now).filter _).length_eq.symm).symm

theorem visible_visible : visible (visible entries o now) o now = visible entries o now := by
  have hall : (visible entries o now).filter (o.accepts now) = visible entries o now :=
    List.filter_eq_self.2 fun e he => (mem_visible.1 he).2
  show List.mergeSort ((visible entries o now).filter _) _ = _
  rw [hall]
  exact List.mergeSort_of_pairwise (pairwise_visible entries o now)

end

/-- Entries in strict order are what is shown, if they are what is accepted. -/
theorem visible_eq_of_pairwise {entries shown : List Entry} {o : Options} {now : Instant}
    (hperm : shown.Perm (entries.filter (o.accepts now)))
    (hlt : shown.Pairwise fun a b => compareEntries o.sort a b = .lt) :
    visible entries o now = shown := by
  have hvisible : shown.Perm (visible entries o now) := hperm.trans (perm_visible entries o now).symm
  have hne : shown.Pairwise fun a b => compareEntries o.sort a b ≠ .eq :=
    hlt.imp fun hab => by simp [hab]
  have hsymm : ∀ a b, compareEntries o.sort a b ≠ .eq → compareEntries o.sort b a ≠ .eq :=
    fun a b hab hba => hab (by rw [@Std.OrientedCmp.eq_swap _ (compareEntries o.sort) _ a b, hba]; rfl)
  have : Std.Symm fun a b => compareEntries o.sort a b ≠ .eq := ⟨hsymm⟩
  refine (hvisible.eq_of_pairwise (fun a b ha hb hab hba => ?_) (hlt.imp fun hab => by simp [hab])
    (pairwise_visible entries o now)).symm
  by_contra hab'
  exact hne.forall ha (hvisible.mem_iff.2 hb) hab' (eq_of_isLE_of_isLE hab hba)

/-! ## Sorted by name -/

/-- Is the mode one of the two that sort by name? -/
def SortMode.IsByName (mode : SortMode) : Prop := mode = .nameAsc ∨ mode = .nameDesc

theorem name_eq_of_tie {mode : SortMode} (h : mode.IsByName) {a b : Entry}
    (htie : mode.compare a b = .eq) : a.name = b.name := by
  rcases h with rfl | rfl
  · exact compareNames_eq_iff.1 htie
  · exact (compareNames_eq_iff.1 htie).symm

section
variable {entries : List Entry} (hnames : (entries.map (·.name)).Nodup)
include hnames

/-- **The order of the listing** does not matter if no name is repeated. -/
theorem visible_perm {o : Options} (ho : o.sort.IsByName) (now : Instant) {entries' : List Entry}
    (h : entries.Perm entries') : visible entries' o now = visible entries o now := by
  have hperm : (visible entries' o now).Perm (visible entries o now) :=
    ((perm_visible entries' o now).trans (h.symm.filter _)).trans (perm_visible entries o now).symm
  refine hperm.eq_of_pairwise (fun a b ha hb hab hba => ?_) (pairwise_visible entries' o now)
    (pairwise_visible entries o now)
  have htie : compareEntries o.sort a b = .eq := eq_of_isLE_of_isLE hab hba
  rw [compareEntries_eq, Ordering.then_eq_eq] at htie
  refine List.inj_on_of_nodup_map hnames ?_ (mem_visible.1 hb).1 (name_eq_of_tie ho htie.2)
  exact h.mem_iff.2 (mem_visible.1 ha).1

/-- **Descending** by name, each group is what it is ascending, read backwards. -/
theorem group_nameDesc (o : Options) (now : Instant) (directories : Bool) :
    group directories (visible entries { o with sort := .nameDesc } now) =
      (group directories (visible entries { o with sort := .nameAsc } now)).reverse := by
  have hperm := (perm_visible entries { o with sort := .nameDesc } now).trans
    (perm_visible entries { o with sort := .nameAsc } now).symm
  have hmem : ∀ {a : Entry} {mode : SortMode},
      a ∈ group directories (visible entries { o with sort := mode } now) → a ∈ entries :=
    fun ha => (mem_visible.1 (List.mem_filter.1 ha).1).1
  refine ((hperm.filter _).trans (List.reverse_perm _).symm).eq_of_pairwise
    (fun a b ha hb hab hba => ?_) (pairwise_group entries { o with sort := .nameDesc } now _)
    (List.pairwise_reverse.2 (pairwise_group entries { o with sort := .nameAsc } now _))
  have htie : SortMode.nameDesc.compare a b = .eq := eq_of_isLE_of_isLE hab hba
  exact List.inj_on_of_nodup_map hnames (hmem ha) (hmem (List.mem_reverse.1 hb))
    (name_eq_of_tie (.inr rfl) htie)

end

/-! ## All of it -/

/-- **The visible sequence.** It holds exactly the accepted entries, each as often as the listing does;
directories come before files, each group is in the order of the mode, and entries that tie are in the
order of the listing; to show it again changes nothing. If no name is repeated, then sorted by name it
is the same for every order of the listing, and each group descending is that group ascending, read
backwards. -/
theorem visible_sequence (entries : List Entry) (o : Options) (now : Instant) :
    let shown := visible entries o now
    shown.Perm (entries.filter (o.accepts now)) ∧
      shown = group true shown ++ group false shown ∧
      (∀ directories, (group directories shown).Pairwise
        fun a b => (o.sort.compare a b).isLE = true) ∧
      (∀ e, shown.filter (ties o.sort e) =
        (entries.filter (o.accepts now)).filter (ties o.sort e)) ∧
      visible shown o now = shown ∧
      ((entries.map (·.name)).Nodup →
        (o.sort.IsByName → ∀ entries', entries.Perm entries' → visible entries' o now = shown) ∧
        ∀ directories, group directories (visible entries { o with sort := .nameDesc } now) =
          (group directories (visible entries { o with sort := .nameAsc } now)).reverse) := by
  intro shown
  refine ⟨perm_visible entries o now, visible_eq_groups entries o now, pairwise_group entries o now,
    filter_ties_visible entries o now, visible_visible entries o now, fun hnames => ⟨?_, ?_⟩⟩
  · exact fun ho entries' hperm => visible_perm hnames ho now hperm
  · exact group_nameDesc hnames o now

/-- Names that differ only in case, and one that is listed before a directory. -/
def mixedCase : List Entry :=
  [.file "/b" 3 default, .directory "/z" default, .file "/B" 3 default, .directory "/A" default]

/-- Read in the other direction, the listing shows the same. -/
theorem visible_sequence_mixedCase :
    (mixedCase.map (·.name)).Nodup ∧
      (visible mixedCase {} default).map (·.name) = ["A", "z", "B", "b"] ∧
      visible mixedCase.reverse {} default = visible mixedCase {} default ∧
      group false (visible mixedCase { sort := .nameDesc } default) =
        (group false (visible mixedCase {} default)).reverse := by
  have hnames : (mixedCase.map (·.name)).Nodup := by decide
  have hperm : [Entry.directory "/A" default, .directory "/z" default, .file "/B" 3 default,
      .file "/b" 3 default].Perm (mixedCase.filter (({} : Options).accepts default)) := by
    decide
  obtain ⟨-, -, -, -, -, hdistinct⟩ := visible_sequence mixedCase {} default
  exact ⟨hnames, by rw [visible_eq_of_pairwise hperm (by decide)]; decide,
    (hdistinct hnames).1 (.inl rfl) _ (List.reverse_perm _).symm, (hdistinct hnames).2 false⟩

end View

end CloudDrive
