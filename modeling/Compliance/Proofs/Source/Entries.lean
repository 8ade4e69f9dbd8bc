import Compliance.Source
import Mathlib.Data.List.Induction

/-!
# Trees and the entries they are made of

A tree is made by entering files and denials one after the other.  If no two files have
the same place, what a path is answered depends on which entries there are, and neither
on their order nor on how the path is written: a denial comes first, then a file, then a
directory, which exists through the files below it, and whose text is put together in
the order of names.

## Main definitions

* `SourceTree.Entry`, `SourceTree.ofEntries` — a file or a denial, and the tree of some.
* `SourceTree.Answers entries place` — the answer for a place, read off the entries.
* `SourceTree.answers_by_entries` — this is what reading a tree comes to.
-/

namespace Compliance

namespace Path

/-- The names of fragments: something with `.cs` behind it. -/
theorem isFragmentName_iff {name : String} :
    isFragmentName name = true ↔ ∃ stem, stem ≠ "" ∧ name = stem ++ ".cs" := by
  have width : ".cs".toList.length = 3 := rfl
  rw [isFragmentName, Bool.and_eq_true, List.isSuffixOf_iff_suffix, decide_eq_true_eq]
  constructor
  · rintro ⟨⟨front, whole⟩, long⟩
    have same : name = String.ofList front ++ ".cs" := by
      rw [← String.toList_inj, String.toList_append, String.toList_ofList, whole]
    refine ⟨String.ofList front, ?_, same⟩
    rintro empty
    rw [same, empty, String.length_append] at long
    exact absurd long (by decide)
  · rintro ⟨stem, nonempty, rfl⟩
    have filled : 0 < stem.length := by
      rw [← String.length_toList, List.length_pos_iff]
      exact fun empty => nonempty (String.toList_eq_nil_iff.mp empty)
    refine ⟨⟨stem.toList, by rw [String.toList_append]⟩, ?_⟩
    have three : ".cs".length = 3 := rfl
    rw [String.length_append]
    omega

theorem normalize_inj {p q : Path} (h : p.normalize.steps = q.normalize.steps) :
    p.normalize = q.normalize := by
  rw [← ofSteps_steps_normalize p, ← ofSteps_steps_normalize q, h]

end Path

namespace SourceTree

/-! ## Entries -/

/-- What is entered into a tree: a file, or that a path may not be read. -/
inductive Entry where
  | file (path : Path) (text : String)
  | denial (path : Path)
deriving DecidableEq

/-- The normal path of a file that is entered. -/
def Entry.place? : Entry → Option Path
  | .file path _ => some path.normalize
  | .denial _ => none

/-- A tree with one entry more. -/
def enter (tree : SourceTree) : Entry → SourceTree
  | .file path text => tree.add path text
  | .denial path => tree.deny path

/-- The tree of some entries, made one after the other. -/
def ofEntries (entries : List Entry) : SourceTree := entries.foldl enter empty

/-- No two files are entered at the same place. -/
def Distinct (entries : List Entry) : Prop := (entries.filterMap Entry.place?).Nodup

/-- There is a file at a place, with a text. -/
def Filed (entries : List Entry) (place : Path) (text : String) : Prop :=
  ∃ path, .file path text ∈ entries ∧ path.normalize = place

/-- A place may not be read. -/
def Denied (entries : List Entry) (place : Path) : Prop :=
  ∃ path, .denial path ∈ entries ∧ path.normalize = place

/-- A place is that of no file, and files lie further down. -/
def Directory (entries : List Entry) (place : Path) : Prop :=
  (∀ text, ¬ Filed entries place text) ∧ ∃ path text more, .file path text ∈ entries ∧
    more ≠ [] ∧ path.normalize.steps = place.steps ++ more

/-- The fragments directly in a place with their texts, in the order of their names. -/
structure Listing (entries : List Entry) (place : Path) (listing : List (String × String)) :
    Prop where
  ordered : listing.Pairwise fun f g => f.1 < g.1
  mem_iff : ∀ name text, (name, text) ∈ listing ↔ (∃ stem, stem ≠ "" ∧ name = stem ++ ".cs") ∧
    ∃ path, .file path text ∈ entries ∧ path.normalize.steps = place.steps ++ [.down name]

/-- What a normal path is answered where some entries have been made. -/
inductive Answers (entries : List Entry) (place : Path) : Except ReadFault String → Prop
  | denied : Denied entries place → Answers entries place (.error (.accessDenied place))
  | file {text : String} : ¬ Denied entries place → Filed entries place text →
    Answers entries place (.ok text)
  | directory {listing : List (String × String)} : ¬ Denied entries place →
    Directory entries place → Listing entries place listing →
    Answers entries place (.ok (String.join (listing.map fun f => f.2 ++ "\n")))
  | missing : ¬ Denied entries place → (∀ text, ¬ Filed entries place text) →
    ¬ Directory entries place → Answers entries place (.error (.notFound place))

/-! ## Trees of entries -/

variable {entries : List Entry} {place : Path} {text : String}

theorem ofEntries_concat (entries : List Entry) (e : Entry) :
    ofEntries (entries ++ [e]) = (ofEntries entries).enter e :=
  List.foldl_append ..

/-- The places of files are normal, and each has one file. -/
theorem files_ofEntries (entries : List Entry) :
    (∀ file ∈ (ofEntries entries).files, ∃ path : Path, path.normalize = file.1) ∧
      ((ofEntries entries).files.map (·.1)).Nodup := by
  induction entries using List.reverseRecOn with
  | nil => exact ⟨nofun, .nil⟩
  | append_singleton entries e ih =>
    rw [ofEntries_concat]
    cases e with
    | denial path => exact ih
    | file path text =>
      constructor
      · intro file hf
        rcases List.mem_cons.mp hf with rfl | hf
        · exact ⟨path, rfl⟩
        · exact ih.1 file (List.mem_filter.mp hf).1
      · refine List.nodup_cons.mpr ⟨fun again => ?_, ih.2.sublist (List.filter_sublist.map _)⟩
        obtain ⟨file, hf, same⟩ := List.mem_map.mp again
        have other := (List.mem_filter.mp hf).2
        simp [same] at other

/-- The files of a tree are those that have been entered. -/
theorem mem_files_ofEntries (distinct : Distinct entries) :
    (place, text) ∈ (ofEntries entries).files ↔ Filed entries place text := by
  induction entries using List.reverseRecOn with
  | nil => simp [ofEntries, empty, Filed]
  | append_singleton entries e ih =>
    rw [Distinct, List.filterMap_append, List.nodup_append] at distinct
    obtain ⟨front, -, apart⟩ := distinct
    rw [ofEntries_concat]
    cases e with
    | denial path =>
      have same : Filed (entries ++ [.denial path]) place text ↔ Filed entries place text := by
        simp [Filed]
      rw [same]
      exact ih front
    | file path held =>
      have new : ∀ text, ¬ Filed entries path.normalize text := by
        rintro text ⟨other, he, same⟩
        refine apart other.normalize (List.mem_filterMap.mpr ⟨_, he, rfl⟩) path.normalize ?_ same
        simp [Entry.place?]
      have kept : (place, text) ∈ ((ofEntries entries).enter (.file path held)).files ↔
          (place = path.normalize ∧ text = held) ∨
            (place ≠ path.normalize ∧ Filed entries place text) := by
        simp only [enter, add, List.mem_cons, Prod.mk.injEq, List.mem_filter, decide_eq_true_eq,
          ih front, and_comm (a := Filed entries place text), ne_eq]
      rw [kept]
      constructor
      · rintro (⟨rfl, rfl⟩ | ⟨-, other, he, same⟩)
        · exact ⟨path, by simp, rfl⟩
        · exact ⟨other, List.mem_append_left _ he, same⟩
      · rintro ⟨other, he, rfl⟩
        rcases List.mem_append.mp he with he | he
        · refine .inr ⟨fun same => ?_, other, he, rfl⟩
          exact new text ⟨other, he, same⟩
        · obtain ⟨rfl, rfl⟩ : other = path ∧ text = held := by simpa using he
          exact .inl ⟨rfl, rfl⟩

theorem mem_denied_ofEntries : place ∈ (ofEntries entries).denied ↔ Denied entries place := by
  induction entries using List.reverseRecOn with
  | nil => simp [ofEntries, empty, Denied]
  | append_singleton entries e ih =>
    rw [ofEntries_concat]
    cases e with
    | file path held =>
      have same : Denied (entries ++ [.file path held]) place ↔ Denied entries place := by
        simp [Denied]
      rw [same]
      exact ih
    | denial path =>
      simp only [enter, deny, List.mem_cons, ih, Denied, List.mem_append, Entry.denial.injEq,
        List.not_mem_nil, or_false]
      constructor
      · rintro (rfl | ⟨other, he, same⟩)
        · exact ⟨path, .inr rfl, rfl⟩
        · exact ⟨other, .inl he, same⟩
      · rintro ⟨other, he | rfl, same⟩
        · exact .inr ⟨other, he, same⟩
        · exact .inl same.symm

theorem file?_ofEntries (distinct : Distinct entries) :
    (ofEntries entries).file? place = some text ↔ Filed entries place text := by
  rw [← mem_files_ofEntries distinct, file?]
  constructor
  · intro found
    obtain ⟨before, after, files, -⟩ := List.lookup_eq_some_iff.mp found
    exact files ▸ List.mem_append_right before List.mem_cons_self
  · intro hf
    obtain ⟨before, after, files⟩ := List.append_of_mem hf
    refine List.lookup_eq_some_iff.mpr ⟨before, after, files, fun file hb => ?_⟩
    have once := (files_ofEntries entries).2
    rw [files, List.map_append, List.nodup_append] at once
    have apart := once.2.2 file.1 (List.mem_map_of_mem hb) place (by simp)
    simpa using apart.symm

theorem file?_eq_none (distinct : Distinct entries) :
    (ofEntries entries).file? place = none ↔ ∀ text, ¬ Filed entries place text := by
  rw [Option.eq_none_iff_forall_ne_some]
  exact forall_congr' fun text => not_congr (file?_ofEntries distinct)

theorem isDirectory_ofEntries (distinct : Distinct entries) (p : Path) :
    (ofEntries entries).isDirectory p = true ↔ Directory entries p.normalize := by
  have below {file : List Step} : isAbove p.normalize.steps file = true ↔
      ∃ more, more ≠ [] ∧ file = p.normalize.steps ++ more := by
    rw [isAbove, Bool.and_eq_true, List.isPrefixOf_iff_prefix, bne_iff_ne]
    constructor
    · rintro ⟨⟨more, rfl⟩, differ⟩
      exact ⟨more, fun empty => differ (by simp [empty]), rfl⟩
    · rintro ⟨more, nonempty, rfl⟩
      exact ⟨List.prefix_append _ _, by simpa using nonempty⟩
  simp only [isDirectory, Bool.and_eq_true, Option.isNone_iff_eq_none, file?_eq_none distinct,
    List.any_eq_true, below, Directory]
  refine and_congr_right fun _ => ?_
  constructor
  · rintro ⟨⟨place, text⟩, hf, more, nonempty, steps⟩
    obtain ⟨path, he, rfl⟩ := (mem_files_ofEntries distinct).mp hf
    exact ⟨path, text, more, he, nonempty, steps⟩
  · rintro ⟨path, text, more, he, nonempty, steps⟩
    exact ⟨(path.normalize, text), (mem_files_ofEntries distinct).mpr ⟨path, he, rfl⟩, more,
      nonempty, steps⟩

/-! ## The text of a directory -/

theorem fragmentName?_eq_some {place file : List Step} {name : String} :
    fragmentName? place file = some name ↔
      (∃ stem, stem ≠ "" ∧ name = stem ++ ".cs") ∧ file = place ++ [.down name] := by
  rw [← Path.isFragmentName_iff, fragmentName?]
  constructor
  · intro h
    split at h
    · next last ends =>
      split at h
      · next holds =>
        cases h
        obtain ⟨front, rfl⟩ := List.getLast?_eq_some_iff.mp ends
        refine ⟨holds.2, ?_⟩
        rw [← holds.1, List.dropLast_concat]
      · cases h
    · cases h
  · rintro ⟨fragment, rfl⟩
    simp [fragment]

theorem mem_fragments (distinct : Distinct entries) {name : String} :
    (name, text) ∈ (ofEntries entries).fragments place ↔
      (∃ stem, stem ≠ "" ∧ name = stem ++ ".cs") ∧
        ∃ path, .file path text ∈ entries ∧ path.normalize.steps = place.steps ++ [.down name] := by
  simp only [fragments, List.mem_filterMap, Prod.exists, Option.map_eq_some_iff, Prod.mk.injEq,
    fragmentName?_eq_some]
  constructor
  · rintro ⟨file, held, hf, name', ⟨fragment, steps⟩, rfl, rfl⟩
    obtain ⟨path, he, rfl⟩ := (mem_files_ofEntries distinct).mp hf
    exact ⟨fragment, path, he, steps⟩
  · rintro ⟨fragment, path, he, steps⟩
    exact ⟨path.normalize, text, (mem_files_ofEntries distinct).mpr ⟨path, he, rfl⟩, name,
      ⟨fragment, steps⟩, rfl, rfl⟩

theorem pairwise_fragments (entries : List Entry) (place : Path) :
    ((ofEntries entries).fragments place).Pairwise fun f g => f.1 ≠ g.1 := by
  obtain ⟨normal, once⟩ := files_ofEntries entries
  rw [fragments, List.pairwise_filterMap]
  refine (List.pairwise_map.mp once).imp_of_mem fun {f g} hf hg differ => ?_
  rintro _ hx _ hy same
  obtain ⟨name, hn, rfl⟩ := Option.map_eq_some_iff.mp hx
  obtain ⟨name', hn', rfl⟩ := Option.map_eq_some_iff.mp hy
  obtain rfl : name = name' := same
  -- Two places that lie in one place under one name have the same walk, so they are one.
  obtain ⟨p, hp⟩ := normal f hf
  obtain ⟨q, hq⟩ := normal g hg
  have steps : f.1.steps = g.1.steps :=
    (fragmentName?_eq_some.mp hn).2.trans (fragmentName?_eq_some.mp hn').2.symm
  rw [← hp, ← hq] at steps differ
  exact differ (Path.normalize_inj steps)

theorem pairwise_sortFragments {α : Type} {fragments : List (String × α)}
    (differ : fragments.Pairwise fun f g => f.1 ≠ g.1) :
    (sortFragments fragments).Pairwise fun f g => f.1 < g.1 := by
  have sorted : (sortFragments fragments).Pairwise fun f g => (!decide (g.1 < f.1)) = true := by
    refine List.pairwise_mergeSort (fun f g h before after => ?_) (fun f g => ?_) fragments
    · simp only [Bool.not_eq_true', decide_eq_false_iff_not, String.not_lt] at before after ⊢
      exact String.le_trans before after
    · simp only [Bool.or_eq_true, Bool.not_eq_true', decide_eq_false_iff_not, String.not_lt]
      exact String.le_total f.1 g.1
  have differ' : (sortFragments fragments).Pairwise fun f g => f.1 ≠ g.1 :=
    differ.perm (List.mergeSort_perm _ _).symm fun h => Ne.symm h
  refine (sorted.and differ').imp fun {f g} both => ?_
  have notBefore : ¬ g.1 < f.1 := by simpa using both.1
  exact Std.lt_of_le_of_ne (String.not_lt.mp notBefore) both.2

theorem listing_ofEntries (distinct : Distinct entries) (place : Path) :
    Listing entries place (sortFragments ((ofEntries entries).fragments place)) where
  ordered := pairwise_sortFragments (pairwise_fragments entries place)
  mem_iff _ _ := by rw [sortFragments, List.mem_mergeSort, mem_fragments distinct]

theorem Listing.unique {listing listing' : List (String × String)}
    (h : Listing entries place listing) (h' : Listing entries place listing') :
    listing = listing' := by
  have nodup {l : List (String × String)} (ordered : l.Pairwise fun f g => f.1 < g.1) :
      l.Nodup := by
    refine ordered.imp ?_
    rintro f g before rfl
    exact String.lt_irrefl _ before
  have perm : listing.Perm listing' :=
    (List.perm_ext_iff_of_nodup (nodup h.ordered) (nodup h'.ordered)).mpr fun (name, text) =>
      (h.mem_iff name text).trans (h'.mem_iff name text).symm
  exact perm.eq_of_pairwise (fun f g _ _ before after => absurd after (String.lt_asymm before))
    h.ordered h'.ordered

/-! ## Answers -/

/-- Reading a tree gives an answer that the entries have for the place. -/
theorem answers_read (distinct : Distinct entries) (p : Path) :
    Answers entries p.normalize ((ofEntries entries).read p) := by
  have normal : p.normalize.normalize = p.normalize := p.normalize_normalize
  by_cases denied : Denied entries p.normalize
  · have listed : (ofEntries entries).denied.contains p.normalize = true :=
      List.contains_iff_mem.mpr (mem_denied_ofEntries.mpr denied)
    rw [read, if_pos listed]
    exact .denied denied
  · have free : ¬ (ofEntries entries).denied.contains p.normalize = true :=
      fun listed => denied (mem_denied_ofEntries.mp (List.contains_iff_mem.mp listed))
    rw [read, if_neg free]
    split
    · next text found => exact .file denied ((file?_ofEntries distinct).mp found)
    · next unfiled =>
      have directory := isDirectory_ofEntries distinct p.normalize
      rw [normal] at directory
      split
      · next holds => exact .directory denied (directory.mp holds) (listing_ofEntries distinct _)
      · next fails =>
        exact .missing denied ((file?_eq_none distinct).mp unfiled) (mt directory.mpr fails)

/-- A place has one answer. -/
theorem Answers.unique (distinct : Distinct entries) {answer answer' : Except ReadFault String}
    (h : Answers entries place answer) (h' : Answers entries place answer') : answer = answer' := by
  have once {text text' : String} (filed : Filed entries place text)
      (filed' : Filed entries place text') : text = text' := by
    rw [← file?_ofEntries distinct] at filed filed'
    exact Option.some.inj (filed.symm.trans filed')
  cases h with
  | denied denied => cases h' <;> first | rfl | contradiction
  | file free filed =>
    cases h' with
    | denied denied => contradiction
    | file _ filed' => rw [once filed filed']
    | directory _ directory _ => exact absurd filed (directory.1 _)
    | missing _ unfiled _ => exact absurd filed (unfiled _)
  | directory free directory listing =>
    cases h' with
    | denied denied => contradiction
    | file _ filed => exact absurd filed (directory.1 _)
    | directory _ _ listing' => rw [listing.unique listing']
    | missing _ _ other => contradiction
  | missing free unfiled other =>
    cases h' with
    | denied denied => contradiction
    | file _ filed => exact absurd filed (unfiled _)
    | directory _ directory _ => contradiction
    | missing _ _ _ => rfl

/-- What is entered says all there is to an answer, in any order. -/
theorem Answers.perm {entries' : List Entry} {answer : Except ReadFault String}
    (same : entries.Perm entries') (h : Answers entries place answer) :
    Answers entries' place answer := by
  have mem (e : Entry) : e ∈ entries ↔ e ∈ entries' := same.mem_iff
  cases h with
  | denied denied => exact .denied (by simpa only [Denied, mem] using denied)
  | file free filed =>
    exact .file (by simpa only [Denied, mem] using free) (by simpa only [Filed, mem] using filed)
  | directory free directory listing =>
    refine .directory (by simpa only [Denied, mem] using free)
      (by simpa only [Directory, Filed, mem] using directory) ⟨listing.ordered, fun name text => ?_⟩
    simpa only [mem] using listing.mem_iff name text
  | missing free unfiled other =>
    exact .missing (by simpa only [Denied, mem] using free)
      (by simpa only [Filed, mem] using unfiled)
      (by simpa only [Directory, Filed, mem] using other)

/-- **What a tree answers does not depend on how it was made.**  If no two files are entered at the
same place, reading a path gives the answer that the entries have for its normal path: a denial
first, then the text of a file, then of a directory, which is put together from the fragments
directly in it in the order of names, and else that there is nothing.  Directories are the places of
no file above some.  Entries in another order, and other spellings of a path, are answered alike,
and normal paths are normal once and for all. -/
theorem answers_by_entries (distinct : Distinct entries) :
    (∀ (p : Path) (answer : Except ReadFault String),
      (ofEntries entries).read p = answer ↔ Answers entries p.normalize answer) ∧
    (∀ p : Path, (ofEntries entries).isDirectory p = true ↔ Directory entries p.normalize) ∧
    (∀ entries', entries.Perm entries' → ∀ p : Path,
      (ofEntries entries').read p = (ofEntries entries).read p ∧
        (ofEntries entries').isDirectory p = (ofEntries entries).isDirectory p) ∧
    (∀ p q : Path, p.normalize = q.normalize →
      (ofEntries entries).read p = (ofEntries entries).read q ∧
        (ofEntries entries).isDirectory p = (ofEntries entries).isDirectory q) ∧
    ∀ p : Path, p.normalize.normalize = p.normalize := by
  refine ⟨fun p answer => ⟨?_, ?_⟩, isDirectory_ofEntries distinct, ?_, ?_,
    Path.normalize_normalize⟩
  · rintro rfl
    exact answers_read distinct p
  · exact (answers_read distinct p).unique distinct
  · intro entries' same p
    have distinct' : Distinct entries' := distinct.perm (same.filterMap _)
    have mem (e : Entry) : e ∈ entries ↔ e ∈ entries' := same.mem_iff
    refine ⟨(answers_read distinct' p).unique distinct' ((answers_read distinct p).perm same), ?_⟩
    rw [Bool.eq_iff_iff, isDirectory_ofEntries distinct, isDirectory_ofEntries distinct']
    simp only [Directory, Filed, mem]
  · intro p q same
    constructor
    · simp only [read, same]
    · simp only [isDirectory, same]

/-- Two fragments in a directory, beside a file that is none and a place that may not be read. -/
def libraryEntries : List Entry :=
  [.file ⟨"/m/b.cs"⟩ "B", .file ⟨"/m/./a.cs"⟩ "A", .denial ⟨"/m/sub/"⟩,
    .file ⟨"/m/notes.txt"⟩ "no", .file ⟨"/m/sub/c.cs"⟩ "C"]

theorem listing_library :
    Listing libraryEntries (Path.mk "/m").normalize [("a.cs", "A"), ("b.cs", "B")] := by
  have distinct : Distinct libraryEntries := by
    rw [Distinct]
    decide +kernel
  have fragments : (ofEntries libraryEntries).fragments (Path.mk "/m").normalize =
      [("a.cs", "A"), ("b.cs", "B")] := by decide +kernel
  have ordered : sortFragments [("a.cs", "A"), ("b.cs", "B")] = [("a.cs", "A"), ("b.cs", "B")] :=
    List.mergeSort_of_pairwise (by decide +kernel)
  have listing := listing_ofEntries distinct (Path.mk "/m").normalize
  rwa [fragments, ordered] at listing

/-- The directory has the text of the two, also by another spelling and with the entries in another
order, while a file is read in a place that may not be. -/
theorem answers_by_entries_library :
    Distinct libraryEntries ∧ libraryEntries.Perm libraryEntries.reverse ∧
    (ofEntries libraryEntries).read ⟨"/m/"⟩ = .ok "A\nB\n" ∧
    (ofEntries libraryEntries.reverse).read ⟨"/x/..//m"⟩ = .ok "A\nB\n" ∧
    Answers libraryEntries (Path.mk "/m/sub").normalize (.error (.accessDenied ⟨"/m/sub"⟩)) ∧
    Answers libraryEntries (Path.mk "/m/sub/c.cs").normalize (.ok "C") := by
  have distinct : Distinct libraryEntries := by
    rw [Distinct]
    decide +kernel
  have perm : libraryEntries.Perm libraryEntries.reverse := (List.reverse_perm _).symm
  obtain ⟨answers, directories, order, spelling, -⟩ := answers_by_entries distinct
  have free : ¬ Denied libraryEntries (Path.mk "/m").normalize := by
    rw [← mem_denied_ofEntries]
    decide +kernel
  have text : (ofEntries libraryEntries).read ⟨"/m"⟩ = .ok "A\nB\n" :=
    (answers _ _).mpr (.directory free ((directories _).mp (by decide +kernel)) listing_library)
  have same : (Path.mk "/m/").normalize = (Path.mk "/m").normalize := by decide +kernel
  have same' : (Path.mk "/x/..//m").normalize = (Path.mk "/m").normalize := by decide +kernel
  refine ⟨distinct, perm, (spelling _ _ same).1.trans text, ?_,
    (answers _ _).mp (by decide +kernel), (answers _ _).mp (by decide +kernel)⟩
  exact (order _ perm _).1.trans ((spelling _ _ same').1.trans text)

end SourceTree

end Compliance
