/-
# The order of a report

A report is sorted by a key that is made of the files of the log. What comes out is said
here without the key: diagnostics without a file come first, those of one file stand
together, files follow one another as they were first named, lines ascend within a file,
and of the same place the diagnostic that was registered first comes first. There is only
one list in this order, and a log that holds it is reported as it stands.
-/

import Mathlib.Data.List.DropRight
import Mathlib.Data.List.Induction
import ClassLang.Diagnostic.Log

namespace ClassLang

/-- What decides where a report shows a diagnostic: nothing, if it has no file. -/
def Diagnostic.place (record : Diagnostic) : Option (String × Nat) :=
  record.file.map fun file => (file, record.sortLine)

namespace Log

/-! ## Calls -/

/-- A call that changes what a log holds. -/
inductive Action where
  | register (stage : Stage) (file : String) (line : Nat) (message : String)
  | registerGeneral (stage : Stage) (message : String)
  | clear
  deriving DecidableEq, Repr

namespace Action

/-- The diagnostic that a call registers. -/
def record? : Action → Option Diagnostic
  | register stage file line message => some (.located stage file line message)
  | registerGeneral stage message => some (.general stage message)
  | clear => none

/-- The log after a call, whether or not the call was told that there are too many. -/
def perform (log : Log) : Action → Log
  | register stage file line message => (log.register (.located stage file line message)).2
  | registerGeneral stage message => (log.register (.general stage message)).2
  | clear => log.clear

end Action

/-- The log that calls make, starting without diagnostics. -/
def madeBy (limit : Nat) (actions : List Action) : Log :=
  actions.foldl Action.perform { limit := limit }

/-- What was registered since everything was last dropped, in this order. -/
def held (actions : List Action) : List Diagnostic :=
  (actions.rtakeWhile fun action => action != .clear).filterMap Action.record?

/-- A log holds what was registered since it was last cleared, also over its limit. -/
theorem records_madeBy (limit : Nat) (actions : List Action) :
    (madeBy limit actions).records = held actions := by
  induction actions using List.reverseRecOn with
  | nil => rfl
  | append_singleton actions action ih =>
      rw [madeBy, List.foldl_append, List.foldl_cons, List.foldl_nil, ← madeBy, held,
        List.rtakeWhile_concat]
      cases action with
      | clear => rfl
      | register stage file line message =>
          simp only [Action.perform, register, add, ih]
          simp [held, Action.record?]
      | registerGeneral stage message =>
          simp only [Action.perform, register, add, ih]
          simp [held, Action.record?]

/-! ## The order -/

/-- The position of the first diagnostic that names a file. -/
def firstNamed (records : List Diagnostic) (file : String) : Nat :=
  records.findIdx fun record => record.file == some file

/-- One diagnostic may be shown before another, where `records` is the order of
registration. -/
inductive Precedes (records : List Diagnostic) (first second : Diagnostic) : Prop where
  | general (hfirst : first.file = none)
  | located {file other : String} (hfirst : first.file = some file)
      (hsecond : second.file = some other)
      (hfiles : firstNamed records file ≤ firstNamed records other)
      (hlines : file = other → first.sortLine ≤ second.sortLine)

/-- How a report shows the diagnostics that were registered. -/
structure InReportOrder (records report : List Diagnostic) : Prop where
  perm : report.Perm records
  ordered : report.Pairwise (Precedes records)
  /-- Nothing stands between two diagnostics of one file but diagnostics of that file. -/
  contiguous : ∀ first between last, [first, between, last].Sublist report →
    first.file = last.file → between.file = first.file
  /-- Diagnostics of one place, and those without a file, keep their order. -/
  registered : ∀ place, report.filter (fun record => record.place = place) =
    records.filter fun record => record.place = place

section Order

variable {records : List Diagnostic} {first second : Diagnostic} {file other : String}

theorem firstNamed_cons (head : Diagnostic) (records : List Diagnostic) (file : String) :
    firstNamed (head :: records) file =
      if head.file = some file then 0 else firstNamed records file + 1 := by
  rw [firstNamed, List.findIdx_cons, ← firstNamed, cond_eq_ite]
  exact if_congr beq_iff_eq rfl rfl

theorem firstNamed_lt_length (hmem : first ∈ records) (hfile : first.file = some file) :
    firstNamed records file < records.length :=
  List.findIdx_lt_length_of_exists ⟨first, hmem, by simp [hfile]⟩

/-- The first diagnostic that names a file is one of that file. -/
theorem exists_firstNamed (hmem : first ∈ records) (hfile : first.file = some file) :
    ∃ named, records[firstNamed records file]? = some named ∧ named.file = some file := by
  have hlt := firstNamed_lt_length hmem hfile
  refine ⟨records[firstNamed records file], List.getElem?_eq_getElem hlt, ?_⟩
  exact beq_iff_eq.mp (List.findIdx_getElem (w := hlt))

/-- Files that are named are told apart by where they are first named. -/
theorem firstNamed_inj (hfirst : first ∈ records) (hfile : first.file = some file)
    (hsecond : second ∈ records) (hother : second.file = some other)
    (hsame : firstNamed records file = firstNamed records other) : file = other := by
  obtain ⟨named, hnamed, hnamedFile⟩ := exists_firstNamed hfirst hfile
  obtain ⟨again, hagain, hagainFile⟩ := exists_firstNamed hsecond hother
  rw [hsame, hagain] at hnamed
  obtain rfl := Option.some.inj hnamed
  exact Option.some.inj (hnamedFile.symm.trans hagainFile)

/-- What may stand between two diagnostics of one file is of that file. -/
theorem Precedes.file_eq {last : Diagnostic} (hfirst : first ∈ records) (hsecond : second ∈ records)
    (hone : Precedes records first second) (htwo : Precedes records second last)
    (hsame : first.file = last.file) : second.file = first.file := by
  cases hone with
  | general hnone =>
      cases htwo with
      | general hother => rw [hnone, hother]
      | located _ hlast _ _ =>
          rw [← hsame, hnone] at hlast
          cases hlast
  | located hfile hother hfiles _ =>
      cases htwo with
      | general hnone =>
          rw [hother] at hnone
          cases hnone
      | located hother' hlast hfiles' _ =>
          obtain rfl := Option.some.inj (hother.symm.trans hother')
          obtain rfl := Option.some.inj (hfile.symm.trans (hsame.trans hlast))
          rw [hfile, hother,
            firstNamed_inj hfirst hfile hsecond hother (Nat.le_antisymm hfiles hfiles')]

theorem Precedes.sortLine_le (hprecedes : Precedes records first second)
    (hfile : first.file = some file) (hother : second.file = some file) :
    first.sortLine ≤ second.sortLine := by
  cases hprecedes with
  | general hnone =>
      rw [hnone] at hfile
      cases hfile
  | located hfirst hsecond _ hlines =>
      apply hlines
      exact Option.some.inj (by rw [← hfirst, ← hsecond, hfile, hother])

/-- Diagnostics that may stand in either order are of one place. -/
theorem Precedes.place_eq (hfirst : first ∈ records) (hsecond : second ∈ records)
    (hone : Precedes records first second) (htwo : Precedes records second first) :
    first.place = second.place := by
  have hfiles := hone.file_eq hfirst hsecond htwo rfl
  unfold Diagnostic.place
  rw [hfiles]
  cases hfile : first.file with
  | none => rfl
  | some file =>
      have hother : second.file = some file := hfiles.trans hfile
      rw [Option.map_some, Option.map_some,
        Nat.le_antisymm (hone.sortLine_le hfile hother) (htwo.sortLine_le hother hfile)]

end Order

/-! ## Only one list is in order -/

section Unique

variable {α κ : Type} [DecidableEq κ] {key : α → κ}

/-- Lists with the same elements of each key are permutations of each other. -/
theorem perm_of_filter_eq [DecidableEq α] {list other : List α}
    (hsame : ∀ k, list.filter (fun a => key a = k) = other.filter fun a => key a = k) :
    list.Perm other := by
  rw [List.perm_iff_count]
  intro a
  have hown : decide (key a = key a) = true := decide_eq_true rfl
  rw [← List.count_filter (p := fun b => key b = key a) hown, hsame,
    List.count_filter (p := fun b => key b = key a) hown]

/-- A list is determined by its elements of each key, with their order, and by an order
of the keys. -/
theorem eq_of_filter_eq {before : α → α → Prop} {list other : List α}
    (hsame : ∀ k, list.filter (fun a => key a = k) = other.filter fun a => key a = k)
    (hlist : list.Pairwise before) (hother : other.Pairwise before)
    (hantisymm : ∀ a ∈ list, ∀ b ∈ list, before a b → before b a → key a = key b) :
    list = other := by
  have hmem : ∀ a, a ∈ list ↔ a ∈ other := by
    intro a
    have ha := congrArg (a ∈ ·) (hsame (key a))
    simpa using ha
  induction list generalizing other with
  | nil =>
      symm
      rw [List.eq_nil_iff_forall_not_mem]
      intro a ha
      exact absurd ((hmem a).mpr ha) List.not_mem_nil
  | cons a list ih =>
      obtain _ | ⟨b, other⟩ := other
      · exact absurd ((hmem a).mp List.mem_cons_self) List.not_mem_nil
      rw [List.pairwise_cons] at hlist hother
      -- if the heads are not the same, each comes before the other in one of the lists
      have hkey : key a = key b := by
        rcases List.mem_cons.mp ((hmem a).mp List.mem_cons_self) with rfl | ha
        · rfl
        rcases List.mem_cons.mp ((hmem b).mpr List.mem_cons_self) with rfl | hb
        · rfl
        exact hantisymm a List.mem_cons_self b (List.mem_cons_of_mem _ hb) (hlist.1 b hb)
          (hother.1 a ha)
      have hhead := hsame (key a)
      rw [List.filter_cons_of_pos (by simp), List.filter_cons_of_pos (by simp [hkey]),
        List.cons.injEq] at hhead
      obtain ⟨rfl, hrest⟩ := hhead
      have htails : ∀ k, list.filter (fun c => key c = k) = other.filter fun c => key c = k := by
        intro k
        by_cases hk : key a = k
        · exact hk ▸ hrest
        · simpa [List.filter_cons, hk] using hsame k
      rw [ih htails hlist.2 hother.2]
      · intro c hc d hd
        exact hantisymm c (List.mem_cons_of_mem _ hc) d (List.mem_cons_of_mem _ hd)
      · intro c
        have hc := congrArg (c ∈ ·) (htails (key c))
        simpa using hc

end Unique

variable {records report : List Diagnostic}

/-- What is in order among the records themselves decides the whole list. -/
theorem InReportOrder.eq {other : List Diagnostic} (hreport : InReportOrder records report)
    (hother : InReportOrder records other) : report = other := by
  have hsame (place : Option (String × Nat)) :
      report.filter (fun record => record.place = place) =
        other.filter fun record => record.place = place := by
    rw [hreport.registered, hother.registered]
  apply eq_of_filter_eq hsame hreport.ordered hother.ordered
  intro first hfirst second hsecond
  exact Precedes.place_eq (hreport.perm.mem_iff.mp hfirst) (hreport.perm.mem_iff.mp hsecond)

/-- It is enough that the places are in order and that each keeps its records. -/
theorem InReportOrder.of_ordered (hordered : report.Pairwise (Precedes records))
    (hregistered : ∀ place, report.filter (fun record => record.place = place) =
      records.filter fun record => record.place = place) : InReportOrder records report := by
  have hperm := perm_of_filter_eq hregistered
  refine ⟨hperm, hordered, ?_, hregistered⟩
  intro first between last hsublist hfiles
  have hmem : ∀ record ∈ [first, between, last], record ∈ records := fun record hrecord =>
    hperm.mem_iff.mp (hsublist.subset hrecord)
  have hpair : ∀ {one two : Diagnostic}, [one, two].Sublist [first, between, last] →
      Precedes records one two := fun htwo =>
    List.pairwise_iff_forall_sublist.mp hordered (htwo.trans hsublist)
  exact Precedes.file_eq (hmem first (by simp)) (hmem between (by simp))
    (hpair (by simp)) (hpair (by simp)) hfiles

/-- Of two files, the one that a list in order shows first is the one that it names
first: what stands before both is not of the second. -/
theorem firstNamed_le_of_ordered (hmem : ∀ record ∈ report, record ∈ records)
    (hordered : report.Pairwise (Precedes records)) :
    report.Pairwise fun first second => ∀ file other, first.file = some file →
      second.file = some other → firstNamed report file ≤ firstNamed report other := by
  induction report with
  | nil => exact .nil
  | cons head report ih =>
      rw [List.forall_mem_cons] at hmem
      rw [List.pairwise_cons] at hordered ⊢
      constructor
      · intro second _ file other hfile _
        rw [firstNamed_cons, if_pos hfile]
        exact Nat.zero_le _
      · refine ((ih hmem.2 hordered.2).and hordered.2).imp_of_mem ?_
        rintro first second hfirst hsecond ⟨hle, hprecedes⟩ file other hfile hother
        rw [firstNamed_cons, firstNamed_cons]
        by_cases hhead : head.file = some other
        · -- then all from the head to the second are of that file
          have hsame := (hordered.1 first hfirst).file_eq hmem.1 (hmem.2 first hfirst) hprecedes
            (hhead.trans hother.symm)
          rw [if_pos (hsame.symm.trans hfile)]
          exact Nat.zero_le _
        · rw [if_neg hhead]
          have hle := hle file other hfile hother
          split <;> omega

/-- A list in order is in order also as the list of what was registered. -/
theorem InReportOrder.self (hreport : InReportOrder records report) :
    InReportOrder report report := by
  have hfirst := firstNamed_le_of_ordered (fun _ => hreport.perm.mem_iff.mp) hreport.ordered
  refine .of_ordered ((hreport.ordered.and hfirst).imp ?_) fun _ => rfl
  rintro first second ⟨hprecedes, hnamed⟩
  cases hprecedes with
  | general hfile => exact .general hfile
  | located hfile hother _ hlines =>
      exact .located hfile hother (hnamed _ _ hfile hother) hlines

/-! ## Sorting by the key -/

namespace SortKey

variable {key other third : SortKey}

theorem le_iff : key.le other = true ↔ key.located < other.located ∨ key.located = other.located ∧
    (key.group < other.group ∨ key.group = other.group ∧ key.line ≤ other.line) := by
  simp [le]

theorem le_refl (key : SortKey) : key.le key = true := by
  rw [le_iff]
  omega

theorem le_trans (hkey : key.le other = true) (hother : other.le third = true) :
    key.le third = true := by
  rw [le_iff] at hkey hother ⊢
  omega

theorem le_total (key other : SortKey) : (key.le other || other.le key) = true := by
  rw [Bool.or_eq_true, le_iff, le_iff]
  omega

end SortKey

section Sorting

variable {α : Type} (key : α → SortKey) (list : List α)

theorem le_key_trans (a b c : α) (hab : (key a).le (key b) = true)
    (hbc : (key b).le (key c) = true) : (key a).le (key c) = true :=
  SortKey.le_trans hab hbc

theorem pairwise_mergeSort_key :
    (list.mergeSort fun a b => (key a).le (key b)).Pairwise fun a b => (key a).le (key b) = true :=
  List.pairwise_mergeSort (le_key_trans key) (fun a b => SortKey.le_total (key a) (key b)) list

/-- Sorting by a key leaves what has one key in its order. -/
theorem filter_mergeSort_key {keep : α → Bool} (htie : ∀ a b, keep a → keep b → key a = key b) :
    (list.mergeSort fun a b => (key a).le (key b)).filter keep = list.filter keep := by
  have hkept : (list.filter keep).Pairwise fun a b => (key a).le (key b) = true := by
    refine List.Pairwise.imp_of_mem (fun ha hb _ => ?_) (List.pairwise_of_forall fun _ _ => trivial)
    rw [htie _ _ (List.mem_filter.mp ha).2 (List.mem_filter.mp hb).2]
    exact SortKey.le_refl _
  have hsublist := (List.sublist_mergeSort (le_key_trans key)
    (fun a b => SortKey.le_total (key a) (key b)) hkept List.filter_sublist).filter keep
  simp only [List.filter_filter, Bool.and_self] at hsublist
  exact (hsublist.eq_of_length ((List.mergeSort_perm list _).filter keep).length_eq.symm).symm

end Sorting

/-! ## The records of a log -/

variable (log : Log)

theorem mem_files {file : String} :
    file ∈ log.files ↔ ∃ record ∈ log.records, record.file = some file := by
  rw [files, List.mem_eraseDups, List.mem_filterMap]

theorem firstNamed_append {first : Diagnostic} {file : String} (hmem : first ∈ records)
    (hfile : first.file = some file) (more : List Diagnostic) :
    firstNamed (records ++ more) file = firstNamed records file := by
  rw [firstNamed, List.findIdx_append]
  exact if_pos (firstNamed_lt_length hmem hfile)

theorem length_le_firstNamed_append {file : String}
    (hnew : ∀ record ∈ records, record.file ≠ some file) (more : List Diagnostic) :
    records.length ≤ firstNamed (records ++ more) file := by
  rw [firstNamed, List.findIdx_append]
  split
  next hlt => exact absurd (beq_iff_eq.mp (List.findIdx_getElem (w := hlt))) (hnew _ (by simp))
  next => exact Nat.le_add_left _ _

/-- A diagnostic adds its file, unless that has been named before. -/
theorem files_add (record : Diagnostic) :
    (log.add record).files =
      log.files ++ record.file.toList.filter fun file => file ∉ log.files := by
  have hsingle : [record].filterMap Diagnostic.file = record.file.toList := by
    cases hfile : record.file <;> simp [hfile]
  simp only [files, add, List.filterMap_append, hsingle, List.eraseDups_append,
    List.mem_eraseDups]
  generalize log.records.filterMap Diagnostic.file = names
  cases record.file with
  | none => rfl
  | some file => by_cases hold : file ∈ names <;> simp [List.removeAll, List.eraseDups_cons, hold]

/-- The files of a log are in the order in which they were first named. -/
theorem pairwise_files :
    log.files.Pairwise fun file other =>
      firstNamed log.records file < firstNamed log.records other := by
  obtain ⟨limit, records⟩ := log
  induction records using List.reverseRecOn with
  | nil => exact .nil
  | append_singleton records record ih =>
      -- where a file is first named does not change as more is registered
      have hold : (files ⟨limit, records⟩).Pairwise fun file other =>
          firstNamed (records ++ [record]) file < firstNamed (records ++ [record]) other := by
        refine ih.imp_of_mem fun hfile hother hlt => ?_
        obtain ⟨first, hfirst, hnamed⟩ := (mem_files ⟨limit, records⟩).mp hfile
        obtain ⟨second, hsecond, hnamed'⟩ := (mem_files ⟨limit, records⟩).mp hother
        rwa [firstNamed_append hfirst hnamed, firstNamed_append hsecond hnamed']
      rw [show files ⟨limit, records ++ [record]⟩ = _ from files_add ⟨limit, records⟩ record]
      refine List.pairwise_append.mpr ⟨hold, ?_, ?_⟩
      · cases record.file with
        | none => exact .nil
        | some file => exact List.Pairwise.filter _ (List.pairwise_singleton _ _)
      · intro file hfile other hother
        obtain ⟨first, hfirst, hnamed⟩ := (mem_files ⟨limit, records⟩).mp hfile
        have hnew : other ∉ files ⟨limit, records⟩ := by simpa using (List.mem_filter.mp hother).2
        rw [firstNamed_append hfirst hnamed]
        refine Nat.lt_of_lt_of_le (firstNamed_lt_length hfirst hnamed) ?_
        refine length_le_firstNamed_append (fun other hrecord hsame => hnew ?_) [record]
        exact (mem_files ⟨limit, records⟩).mpr ⟨other, hrecord, hsame⟩

/-- A file that is shown first was named first. -/
theorem firstNamed_le_of_idxOf_le {file other : String} (hfile : file ∈ log.files)
    (hother : other ∈ log.files) (hle : log.files.idxOf file ≤ log.files.idxOf other) :
    firstNamed log.records file ≤ firstNamed log.records other := by
  rcases Nat.eq_or_lt_of_le hle with heq | hlt
  · rw [(List.idxOf_inj hfile).mp heq]
  · have hfileLt := List.idxOf_lt_length_iff.mpr hfile
    have hotherLt := List.idxOf_lt_length_iff.mpr hother
    have hfirst := List.pairwise_iff_getElem.mp log.pairwise_files _ _ hfileLt hotherLt hlt
    rw [List.getElem_idxOf, List.getElem_idxOf] at hfirst
    exact Nat.le_of_lt hfirst

theorem sortKey_of_file {record : Diagnostic} {file : String} (hmem : record ∈ log.records)
    (hfile : record.file = some file) :
    log.sortKey record = ⟨1, log.files.idxOf file, record.sortLine⟩ := by
  have hnamed := List.idxOf_lt_length_iff.mpr (log.mem_files.mpr ⟨record, hmem, hfile⟩)
  rw [List.idxOf_eq_getD_idxOf?] at hnamed ⊢
  cases hfound : log.files.idxOf? file with
  | none =>
      rw [hfound] at hnamed
      exact absurd hnamed (Nat.lt_irrefl _)
  | some position => simp only [sortKey, hfile, hfound, Option.getD_some]

theorem sortKey_of_general {record : Diagnostic} (hfile : record.file = none) :
    log.sortKey record = ⟨0, 0, 0⟩ := by
  rw [sortKey, hfile]

/-- The key of a diagnostic depends on its place only. -/
theorem sortKey_congr {record other : Diagnostic} (hplace : record.place = other.place) :
    log.sortKey record = log.sortKey other := by
  unfold Diagnostic.place at hplace
  unfold sortKey
  cases hrecord : record.file with
  | none =>
      rw [hrecord, Option.map_none, eq_comm, Option.map_eq_none_iff] at hplace
      rw [hplace]
  | some file =>
      rw [hrecord, Option.map_some, eq_comm, Option.map_eq_some_iff] at hplace
      obtain ⟨_, hother, heq⟩ := hplace
      obtain ⟨rfl, hline⟩ := Prod.mk.inj heq
      simp only [hother, hline]

/-- A smaller key means an earlier place. -/
theorem precedes_of_sortKey_le {first second : Diagnostic} (hfirst : first ∈ log.records)
    (hsecond : second ∈ log.records)
    (hle : (log.sortKey first).le (log.sortKey second) = true) :
    Precedes log.records first second := by
  cases hfile : first.file with
  | none => exact .general hfile
  | some file =>
      rw [log.sortKey_of_file hfirst hfile] at hle
      cases hother : second.file with
      | none =>
          simp only [log.sortKey_of_general hother, SortKey.le_iff] at hle
          omega
      | some other =>
          simp only [log.sortKey_of_file hsecond hother, SortKey.le_iff] at hle
          have hfileNamed := log.mem_files.mpr ⟨first, hfirst, hfile⟩
          have hotherNamed := log.mem_files.mpr ⟨second, hsecond, hother⟩
          refine .located hfile hother ?_ ?_
          · apply log.firstNamed_le_of_idxOf_le hfileNamed hotherNamed
            omega
          · rintro rfl
            omega

theorem ordered_sorted : log.sorted.Pairwise (Precedes log.records) := by
  have hperm := List.mergeSort_perm log.records fun record other =>
    (log.sortKey record).le (log.sortKey other)
  refine (pairwise_mergeSort_key log.sortKey log.records).imp_of_mem fun hfirst hsecond hle => ?_
  exact log.precedes_of_sortKey_le (hperm.mem_iff.mp hfirst) (hperm.mem_iff.mp hsecond) hle

/-- Sorting leaves the diagnostics of a place as they were registered. -/
theorem filter_sorted (place : Option (String × Nat)) :
    log.sorted.filter (fun record => record.place = place) =
      log.records.filter fun record => record.place = place := by
  apply filter_mergeSort_key
  intro record other hrecord hother
  rw [decide_eq_true_eq] at hrecord hother
  exact log.sortKey_congr (hrecord.trans hother.symm)

/-- A log is reported in the right order. -/
theorem inReportOrder_sorted : InReportOrder log.records log.sorted :=
  .of_ordered log.ordered_sorted log.filter_sorted

/-- Whatever calls were made, the report shows what was registered since the last time that
all was dropped, in the only order that is right, and a log that holds the diagnostics in
this order shows them so. -/
theorem sorted_madeBy_inReportOrder (limit : Nat) (actions : List Action) :
    InReportOrder (held actions) (madeBy limit actions).sorted ∧
      (∀ report, InReportOrder (held actions) report → report = (madeBy limit actions).sorted) ∧
      ∀ log : Log, log.records = (madeBy limit actions).sorted →
        log.sorted = (madeBy limit actions).sorted := by
  have hsorted := (madeBy limit actions).inReportOrder_sorted
  rw [records_madeBy] at hsorted
  refine ⟨hsorted, fun report hreport => hreport.eq hsorted, fun log hrecords => ?_⟩
  have hagain := log.inReportOrder_sorted
  rw [hrecords] at hagain
  exact hagain.eq hsorted.self

end Log

end ClassLang
