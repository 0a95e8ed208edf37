import DeclFront.Proofs.Compilation.Fingerprints
import Mathlib.Data.List.Nodup
import Mathlib.Logic.Relation

/-!
# Compilations derived from one another

A compilation is derived from another by putting in a source, by taking out the sources of a name, or
by other generated files or none. Through any number of such steps its inputs stay a map from names to
texts in the order of insertion, in front of the generated files. Where inputs had one name to begin
with, the first of them is the one that is replaced, and all of them are taken out.
-/

set_option autoImplicit false

namespace DeclFront

namespace Compilation

/-- The second compilation is derived from the first in one step. -/
inductive Derives : Compilation → Compilation → Prop
  | withSource {c : Compilation} (name text : String) : Derives c (c.withSource name text)
  | withoutSource {c d : Compilation} {name : String} (taken : c.withoutSource name = .ok d) :
    Derives c d
  | withGenerated {c : Compilation} {files : List SourceFile}
    (written : ∀ f ∈ files, f.isGenerated = true) : Derives c (c.withGenerated files)
  | withoutGenerated {c : Compilation} : Derives c c.withoutGenerated

/-- The compilation is derived from a new one, in any number of steps. -/
def Derived (c : Compilation) : Prop :=
  ∃ texts, Relation.ReflTransGen Derives (.ofTexts texts) c

/-- No file is on the wrong side. -/
structure Parted (c : Compilation) : Prop where
  inputs : ∀ f ∈ c.inputs, f.isGenerated = false
  generated : ∀ f ∈ c.generated, f.isGenerated = true

/-- The inputs of `d` are those of `c` with a text put in under a name, and `d` has no other files. -/
structure PutsIn (name text : String) (c d : Compilation) : Prop where
  first : d.file? name = some (.input name text)
  replaced : ∀ before f after, c.inputs = before ++ f :: after → f.name = name →
    (∀ g ∈ before, g.name ≠ name) → d.inputs = before ++ .input name text :: after
  appended : (∀ f ∈ c.inputs, f.name ≠ name) → d.inputs = c.inputs ++ [.input name text]
  others : d.inputs.filter (·.name ≠ name) = c.inputs.filter (·.name ≠ name)
  dropped : d.generated = []

/-! ### A file in the place of the first one of its name -/

section ReplaceFirst

variable {file f : SourceFile} {fs before after : List SourceFile}

/-- A file takes the place of one of its name that stands first. -/
theorem replaceFirst_of_eq (h : f.name = file.name) : replaceFirst file (f :: fs) = file :: fs :=
  if_pos h

/-- A file of another name stays where it is. -/
theorem replaceFirst_of_ne (h : f.name ≠ file.name) :
    replaceFirst file (f :: fs) = f :: replaceFirst file fs :=
  if_neg h

/-- Files of other names in front stay where they are. -/
theorem replaceFirst_append (other : ∀ f ∈ before, f.name ≠ file.name) :
    replaceFirst file (before ++ fs) = before ++ replaceFirst file fs := by
  induction before with
  | nil => rfl
  | cons f before ih =>
    obtain ⟨first, rest⟩ := List.forall_mem_cons.mp other
    rw [List.cons_append, replaceFirst_of_ne first, ih rest, List.cons_append]

/-- Where no file has the name, the new one comes last. -/
theorem replaceFirst_of_absent (other : ∀ f ∈ fs, f.name ≠ file.name) :
    replaceFirst file fs = fs ++ [file] := by
  have behind : replaceFirst file (fs ++ []) = fs ++ [file] := replaceFirst_append other
  rwa [List.append_nil] at behind

/-- Either no file has the name, or there is a first one that has it. -/
theorem absent_or_first (name : String) (fs : List SourceFile) :
    (∀ f ∈ fs, f.name ≠ name) ∨ ∃ before f after, fs = before ++ f :: after ∧ f.name = name ∧
      ∀ g ∈ before, g.name ≠ name := by
  by_cases present : ∃ f ∈ fs, f.name = name
  · obtain ⟨f, hf, named⟩ := present
    have found : (fs.find? (·.name = name)).isSome = true :=
      List.find?_isSome.mpr ⟨f, hf, decide_eq_true named⟩
    obtain ⟨g, hg⟩ := Option.isSome_iff_exists.mp found
    obtain ⟨named, before, after, split, others⟩ := List.find?_eq_some_iff_append.mp hg
    exact .inr ⟨before, g, after, split, by simpa using named, by simpa using others⟩
  · exact .inl fun f hf named => present ⟨f, hf, named⟩

/-- The file that was put in is the first of its name. -/
theorem find?_replaceFirst (file : SourceFile) (fs : List SourceFile) :
    (replaceFirst file fs).find? (·.name = file.name) = some file := by
  induction fs with
  | nil => exact List.find?_cons_of_pos (decide_eq_true rfl)
  | cons f fs ih =>
    by_cases same : f.name = file.name
    · rw [replaceFirst_of_eq same]
      exact List.find?_cons_of_pos (decide_eq_true rfl)
    · rw [replaceFirst_of_ne same, List.find?_cons_of_neg (by simpa using same), ih]

/-- The files of other names are the same, in the same order. -/
theorem filter_replaceFirst (file : SourceFile) (fs : List SourceFile) :
    (replaceFirst file fs).filter (·.name ≠ file.name) = fs.filter (·.name ≠ file.name) := by
  induction fs with
  | nil => exact List.filter_cons_of_neg (by simp)
  | cons f fs ih =>
    by_cases same : f.name = file.name
    · rw [replaceFirst_of_eq same, List.filter_cons_of_neg (by simp),
        List.filter_cons_of_neg (by simpa using same)]
    · rw [replaceFirst_of_ne same, List.filter_cons_of_pos (by simpa using same),
        List.filter_cons_of_pos (by simpa using same), ih]

/-- The second of two files of one name is put in the place of the first. -/
theorem replaceFirst_replaceFirst {other : SourceFile} (same : other.name = file.name)
    (fs : List SourceFile) :
    replaceFirst other (replaceFirst file fs) = replaceFirst other fs := by
  induction fs with
  | nil => exact replaceFirst_of_eq same.symm
  | cons f fs ih =>
    by_cases first : f.name = file.name
    · rw [replaceFirst_of_eq first, replaceFirst_of_eq same.symm,
        replaceFirst_of_eq (first.trans same.symm)]
    · rw [replaceFirst_of_ne first, replaceFirst_of_ne (same ▸ first),
        replaceFirst_of_ne (same ▸ first), ih]

/-- Nothing but the new file comes in. -/
theorem mem_replaceFirst (h : f ∈ replaceFirst file fs) : f = file ∨ f ∈ fs := by
  induction fs with
  | nil => exact .inl (List.mem_singleton.mp h)
  | cons g fs ih =>
    by_cases same : g.name = file.name
    · rw [replaceFirst_of_eq same] at h
      exact (List.mem_cons.mp h).imp_right (List.mem_cons_of_mem g)
    · rw [replaceFirst_of_ne same] at h
      rcases List.mem_cons.mp h with rfl | h
      · exact .inr List.mem_cons_self
      · exact (ih h).imp_right (List.mem_cons_of_mem g)

/-- The names are those that there were, in their order, or one more. -/
theorem map_name_replaceFirst (file : SourceFile) (fs : List SourceFile) :
    (replaceFirst file fs).map (·.name) =
      if file.name ∈ fs.map (·.name) then fs.map (·.name) else fs.map (·.name) ++ [file.name] := by
  rcases absent_or_first file.name fs with absent | ⟨before, f, after, rfl, named, others⟩
  · have fresh : file.name ∉ fs.map (·.name) := by simpa using absent
    rw [replaceFirst_of_absent absent, if_neg fresh, List.map_append, List.map_singleton]
  · have present : file.name ∈ (before ++ f :: after).map (·.name) := by simp [named]
    rw [replaceFirst_append others, replaceFirst_of_eq named, if_pos present]
    simp [named]

end ReplaceFirst

/-! ### Single steps -/

section Steps

variable {c d : Compilation} {name text : String}

/-- Putting in a source does what it should to the first input of the name, to all other inputs and
to the generated files. -/
theorem withSource_putsIn (c : Compilation) (name text : String) :
    PutsIn name text c (c.withSource name text) where
  first := by
    have found := find?_replaceFirst (.input name text) c.inputs
    rw [file?, files, withSource, List.append_nil]
    exact found
  replaced before f after split named others := by
    show replaceFirst (.input name text) c.inputs = _
    rw [split, replaceFirst_append others, replaceFirst_of_eq named]
  appended absent := replaceFirst_of_absent absent
  others := filter_replaceFirst (.input name text) c.inputs
  dropped := rfl

/-- Of two sources put in under one name the second remains. -/
theorem withSource_withSource (c : Compilation) (name first second : String) :
    (c.withSource name first).withSource name second = c.withSource name second := by
  have same : (SourceFile.input name second).name = (SourceFile.input name first).name := rfl
  exact congrArg (Compilation.mk · []) (replaceFirst_replaceFirst same c.inputs)

/-- Sources are taken out by name, all of them, and it fails if there is none. -/
theorem withoutSource_eq (c : Compilation) (name : String) :
    c.withoutSource name = if ∃ f ∈ c.inputs, f.name = name
      then .ok ⟨c.inputs.filter (·.name ≠ name), []⟩ else .error (.unknownSource name) := by
  have kept : (c.inputs.filter (·.name ≠ name)).length = c.inputs.length ↔
      ¬∃ f ∈ c.inputs, f.name = name := by
    rw [List.length_filter_eq_length_iff]
    simp
  unfold withoutSource
  simp only [kept, ite_not]

/-- What was put in is taken out again, with all others of the name. -/
theorem withoutSource_withSource (c : Compilation) (name text : String) :
    (c.withSource name text).withoutSource name =
      .ok ⟨c.inputs.filter (·.name ≠ name), []⟩ := by
  have puts := withSource_putsIn c name text
  have present : ∃ f ∈ (c.withSource name text).inputs, f.name = name := by
    have found := find?_replaceFirst (.input name text) c.inputs
    exact ⟨_, List.mem_of_find?_eq_some found, rfl⟩
  rw [withoutSource_eq, if_pos present, puts.others]

/-- Where it does not fail, what is left are the inputs of other names. -/
theorem inputs_of_withoutSource (h : c.withoutSource name = .ok d) :
    d = ⟨c.inputs.filter (·.name ≠ name), []⟩ := by
  rw [withoutSource_eq] at h
  split at h
  · exact (Except.ok.inj h).symm
  · cases h

/-- One step leaves no file on the wrong side. -/
theorem Derives.parted (h : Derives c d) (parted : c.Parted) : d.Parted := by
  cases h with
  | withSource name text =>
    refine ⟨fun f hf => ?_, List.forall_mem_nil _⟩
    rcases mem_replaceFirst hf with rfl | hf
    · rfl
    · exact parted.inputs f hf
  | withoutSource taken =>
    rw [inputs_of_withoutSource taken]
    exact ⟨fun f hf => parted.inputs f (List.mem_filter.mp hf).1, List.forall_mem_nil _⟩
  | withGenerated written => exact ⟨parted.inputs, written⟩
  | withoutGenerated => exact ⟨parted.inputs, List.forall_mem_nil _⟩

/-- One step leaves distinct names distinct: a name that is there already is not added. -/
theorem Derives.nodup_names (h : Derives c d) (distinct : (c.inputs.map (·.name)).Nodup) :
    (d.inputs.map (·.name)).Nodup := by
  cases h with
  | withSource name text =>
    rw [Compilation.withSource, map_name_replaceFirst]
    split
    · exact distinct
    · rename_i fresh
      rw [← List.concat_eq_append]
      exact distinct.concat fresh
  | withoutSource taken =>
    rw [inputs_of_withoutSource taken]
    exact distinct.sublist (List.filter_sublist.map _)
  | withGenerated written => exact distinct
  | withoutGenerated => exact distinct

end Steps

/-! ### Any number of steps -/

section Runs

variable {c d : Compilation}

/-- A new compilation has inputs only. -/
theorem parted_ofTexts (texts : List (String × String)) : (ofTexts texts).Parted := by
  refine ⟨fun f hf => ?_, List.forall_mem_nil _⟩
  obtain ⟨t, -, rfl⟩ := List.mem_map.mp hf
  rfl

/-- Any number of steps leaves no file on the wrong side, by induction on them. -/
theorem Derived.parted (h : c.Derived) : c.Parted := by
  obtain ⟨texts, steps⟩ := h
  induction steps with
  | refl => exact parted_ofTexts texts
  | tail _ step ih => exact step.parted ih

/-- Any number of steps leaves distinct names distinct, by induction on them. -/
theorem nodup_names_of_steps (steps : Relation.ReflTransGen Derives c d)
    (distinct : (c.inputs.map (·.name)).Nodup) : (d.inputs.map (·.name)).Nodup := by
  induction steps with
  | refl => exact distinct
  | tail _ step ih => exact step.nodup_names ih

/-- Inputs come first, then the generated files. -/
theorem Parted.isGenerated_iff (h : c.Parted) {k : Nat} {f : SourceFile}
    (hf : c.files[k]? = some f) : f.isGenerated = true ↔ c.inputs.length ≤ k := by
  rw [files] at hf
  by_cases inside : k < c.inputs.length
  · rw [List.getElem?_append_left inside] at hf
    simp [h.inputs f (List.mem_of_getElem? hf), inside]
  · rw [List.getElem?_append_right (by omega)] at hf
    simp [h.generated f (List.mem_of_getElem? hf), Nat.not_lt.mp inside]

/-- The inputs are those of a new compilation with the same names and texts. -/
theorem Parted.inputs_eq (h : c.Parted) : c.inputs = (ofTexts c.texts).inputs := by
  rw [texts, ofTexts, List.map_map]
  refine (List.map_id _).symm.trans (List.map_congr_left fun f hf => ?_)
  have input : f.origin = .input := by simpa [SourceFile.isGenerated] using h.inputs f hf
  exact SourceFile.ext rfl rfl input

/-- A compilation that is derived from a new one in any number of steps has its inputs in front of its
generated files and the fingerprint of a new one with the same names and texts. A source that is put
in takes the place of the first one of its name, or stands behind all inputs if there is none; what
else was put in under the name before does not matter; and sources are taken out by name, all of the
name, which fails only if there is none. Names that are distinct stay distinct. -/
theorem derived_compilation_is_ordered_map (h : c.Derived) :
    (∀ k f, c.files[k]? = some f → (f.isGenerated = true ↔ c.inputs.length ≤ k)) ∧
    (∀ name text, PutsIn name text c (c.withSource name text)) ∧
    (∀ name first second,
      (c.withSource name first).withSource name second = c.withSource name second) ∧
    (∀ name text, (c.withSource name text).withoutSource name =
      .ok ⟨c.inputs.filter (·.name ≠ name), []⟩) ∧
    (∀ name, c.withoutSource name = if ∃ f ∈ c.inputs, f.name = name
      then .ok ⟨c.inputs.filter (·.name ≠ name), []⟩ else .error (.unknownSource name)) ∧
    (∀ d, Relation.ReflTransGen Derives c d → (c.inputs.map (·.name)).Nodup →
      (d.inputs.map (·.name)).Nodup) ∧
    c.inputs = (ofTexts c.texts).inputs ∧ c.fingerprint = (ofTexts c.texts).fingerprint := by
  have parted := h.parted
  have inputs := parted.inputs_eq
  refine ⟨fun k f hf => parted.isGenerated_iff hf, withSource_putsIn c, withSource_withSource c,
    withoutSource_withSource c, withoutSource_eq c, fun d steps => nodup_names_of_steps steps,
    inputs, ?_⟩
  unfold fingerprint
  rw [← inputs]

end Runs

namespace Sample

/-- Two inputs of one name, one that was put in later, and a generated file. -/
def drafts : Compilation :=
  ((ofTexts [("a", ""), ("b", "x"), ("a", "y")]).withSource "c" "z").withGenerated
    [.generated "g" "g/out.decl" ""]

end Sample

/-- Of the inputs called `a`, one is replaced and both are taken out. -/
theorem drafts_are_ordered_map :
    Sample.drafts.Derived ∧
    (Sample.drafts.withSource "a" "t").texts = [("a", "t"), ("b", "x"), ("a", "y"), ("c", "z")] ∧
    Sample.drafts.withoutSource "a" = .ok (ofTexts [("b", "x"), ("c", "z")]) ∧
    Sample.drafts.fingerprint =
      (ofTexts [("a", ""), ("b", "x"), ("a", "y"), ("c", "z")]).fingerprint := by
  have derived : Sample.drafts.Derived := by
    refine ⟨[("a", ""), ("b", "x"), ("a", "y")], ?_⟩
    refine (Relation.ReflTransGen.refl.tail (.withSource "c" "z")).tail (.withGenerated ?_)
    exact List.forall_mem_singleton.mpr rfl
  obtain ⟨-, puts, -, -, takes, -, -, fingerprint⟩ := derived_compilation_is_ordered_map derived
  have replaced := (puts "a" "t").replaced [] _ _ rfl rfl (List.forall_mem_nil _)
  refine ⟨derived, ?_, ?_, fingerprint⟩
  · rw [texts, replaced]
    rfl
  · rw [takes "a", if_pos ⟨_, List.mem_cons_self, rfl⟩]
    rfl

end Compilation

end DeclFront
