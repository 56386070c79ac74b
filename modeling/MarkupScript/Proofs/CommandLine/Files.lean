import MarkupScript.CommandLine.Files
import MarkupScript.Proofs.CommandLine.Paths
import MarkupScript.Proofs.Token.Sound

/-!
# Where paths lead

A path that leads to a file ends with the name of the file, and the segments before it lead to the
directory that the file lies in, wherever the path starts and however often it goes up. Writing goes
to such a place only: it makes a new content of the place that the path leads to, and all other files
stay as they are.
-/

namespace MarkupScript.CommandLine

/-- Whether a segment is the name of something in a directory. -/
structure IsName (segment : String) : Prop where
  not_idle : Path.isIdle segment = false
  ne_up : segment ≠ ".."
  size_le : segment.utf8ByteSize ≤ maxNameSize

/-- How a segment leads from one place to another. -/
inductive Leads : List String → String → List String → Prop where
  | idle {segment : String} (names : List String) (h : Path.isIdle segment = true) :
    Leads names segment names
  | up (names : List String) : Leads names ".." names.dropLast
  | down {name : String} (names : List String) (h : IsName name) :
    Leads names name (names ++ [name])

namespace Machine

variable {m : Machine}

theorem enter_eq_ok_iff {names : List String} :
    m.enter names = .ok () ↔ m.entryAt names = some .directory := by
  unfold enter
  cases m.entryAt names with
  | none => simp
  | some e => cases e <;> simp

/-- The directory that a machine works in is there, and so are those it lies in. -/
theorem enter_above {names : List String} (h : names <+: m.directory) :
    m.enter names = .ok () := by
  rw [enter_eq_ok_iff, entryAt, if_pos (by simpa using h)]

/-- What a segment does in a directory, case by case. -/
theorem step_of_enter {names : List String} (segment : String) (h : m.enter names = .ok ()) :
    m.step names segment =
      if Path.isIdle segment then .ok names
      else if maxNameSize < segment.utf8ByteSize then .error .nameTooLong
      else if segment = ".." then .ok names.dropLast
      else .ok (names ++ [segment]) := by
  unfold step
  rw [h]
  by_cases hidle : Path.isIdle segment = true
  · simp [hidle, bind, Except.bind, pure, Except.pure]
  · by_cases hsize : maxNameSize < segment.utf8ByteSize
    · simp [hidle, hsize, bind, Except.bind, throw, throwThe, MonadExceptOf.throw]
    · by_cases hup : segment = ".."
      · subst hup
        simp [hidle, hsize, bind, Except.bind, pure, Except.pure]
      · simp [hidle, hsize, hup, bind, Except.bind, pure, Except.pure]

/-- What a segment does: it needs a directory, from which it leads to one place at most. -/
theorem step_eq_ok_iff {names names' : List String} {segment : String} :
    m.step names segment = .ok names' ↔ m.enter names = .ok () ∧ Leads names segment names' := by
  constructor
  · intro h
    obtain ⟨⟨⟩, henter, -⟩ := Except.bind_eq_ok.mp h
    refine ⟨henter, ?_⟩
    rw [step_of_enter segment henter] at h
    split at h
    · next hidle =>
      cases h
      exact .idle names hidle
    · next hidle =>
      split at h
      · cases h
      · next hsize =>
        split at h
        · next hup =>
          cases h
          exact hup ▸ .up names
        · next hup =>
          cases h
          exact .down names ⟨Bool.eq_false_iff.mpr hidle, hup, Nat.not_lt.mp hsize⟩
  · rintro ⟨henter, hleads⟩
    rw [step_of_enter segment henter]
    cases hleads with
    | idle _ hidle => rw [if_pos hidle]
    | up => rfl
    | down _ hname => simp [hname.not_idle, hname.ne_up, Nat.not_lt.mpr hname.size_le]

/-! ### Whole paths -/

/-- Whether all directories on the way to a place are there. -/
def BelowDirectories (m : Machine) (names : List String) : Prop :=
  ∀ before, before <+: names → before ≠ names → m.enter before = .ok ()

theorem BelowDirectories.enter_up {names : List String} (h : m.BelowDirectories names) :
    m.enter names.dropLast = .ok () := by
  cases hlast : names.getLast? with
  | none =>
    obtain rfl := List.getLast?_eq_none_iff.mp hlast
    exact enter_above List.nil_prefix
  | some name =>
    obtain ⟨before, rfl⟩ := List.getLast?_eq_some_iff.mp hlast
    rw [List.dropLast_concat]
    exact h before (List.prefix_append before [name]) (by simp)

theorem BelowDirectories.step {names names' : List String} {segment : String}
    (h : m.BelowDirectories names) (hstep : m.step names segment = .ok names') :
    m.BelowDirectories names' := by
  obtain ⟨henter, hleads⟩ := step_eq_ok_iff.mp hstep
  cases hleads with
  | idle => exact h
  | up =>
    intro before hbefore hne
    refine h before (hbefore.trans (List.dropLast_prefix names)) ?_
    rintro rfl
    exact hne (hbefore.eq_of_length_le (by simp))
  | down _ hname =>
    intro before hbefore hne
    rcases List.prefix_concat_iff.mp hbefore with heq | hbefore
    · exact absurd heq hne
    · by_cases heq : before = names
      · exact heq ▸ henter
      · exact h before hbefore heq

theorem BelowDirectories.foldlM {segs names names' : List String} (h : m.BelowDirectories names)
    (hsegs : segs.foldlM m.step names = .ok names') : m.BelowDirectories names' := by
  induction segs generalizing names with
  | nil =>
    cases hsegs
    exact h
  | cons s segs ih =>
    rw [List.foldlM_cons] at hsegs
    obtain ⟨next, hstep, hsegs⟩ := Except.bind_eq_ok.mp hsegs
    exact ih (h.step hstep) hsegs

theorem belowDirectories_origin (absolute : Bool) : m.BelowDirectories (m.origin absolute) := by
  intro before hbefore _
  cases absolute with
  | true => exact enter_above (hbefore.trans List.nil_prefix)
  | false => exact enter_above hbefore

theorem path_eq_ok_iff {text : String} {p : Path} : path text = .ok p ↔
    text.utf8ByteSize ≤ maxPathSize ∧ text ≠ "" ∧ Path.ofString text = p := by
  unfold path
  split
  · next h => simp [Nat.not_le.mpr h]
  · next h =>
    split
    · next hempty => simp [String.isEmpty_iff.mp hempty]
    · next hempty =>
      have hne : text ≠ "" := fun h => hempty (String.isEmpty_iff.mpr h)
      simp [Nat.not_lt.mp h, hne]

/-! ### Names of files -/

/-- A path that ends with a name in a directory, whether a file lies there or not. -/
structure Names (m : Machine) (text : String) (p : Path) (name : String) (directory : List String) :
    Prop where
  path_eq : path text = .ok ⟨p.absolute, p.segments ++ [name]⟩
  foldlM_init : p.segments.foldlM m.step (m.origin p.absolute) = .ok directory
  enter : m.enter directory = .ok ()
  isName : IsName name

theorem Names.follow {text name : String} {p : Path} {directory : List String}
    (h : m.Names text p name directory) : m.follow text = .ok (directory ++ [name]) := by
  have hstep : m.step directory name = .ok (directory ++ [name]) :=
    step_eq_ok_iff.mpr ⟨h.enter, .down directory h.isName⟩
  rw [Machine.follow, h.path_eq]
  refine Except.bind_eq_ok.mpr ⟨_, rfl, ?_⟩
  rw [List.foldlM_append]
  refine Except.bind_eq_ok.mpr ⟨_, h.foldlM_init, ?_⟩
  rw [List.foldlM_cons]
  exact Except.bind_eq_ok.mpr ⟨_, hstep, rfl⟩

/-- A path that leads to a file ends with the name of the file. -/
theorem exists_names {text : String} {place : List String} {content : ByteArray}
    (h : m.follow text = .ok place) (hfile : m.entryAt place = some (.file content)) :
    ∃ p name directory, m.Names text p name directory ∧ place = directory ++ [name] := by
  have hclosed : m.enter place ≠ .ok () := by simp [enter_eq_ok_iff, hfile]
  obtain ⟨⟨absolute, segs⟩, hpath, hsegs⟩ := Except.bind_eq_ok.mp h
  have hne : segs ≠ [] := by
    have hnil := Path.segments_ofString_ne_nil text
    rwa [(path_eq_ok_iff.mp hpath).2.2] at hnil
  obtain ⟨init, name, rfl⟩ : ∃ init name, segs = init ++ [name] :=
    ⟨_, _, (List.dropLast_concat_getLast hne).symm⟩
  rw [List.foldlM_append] at hsegs
  obtain ⟨directory, hinit, hlast⟩ := Except.bind_eq_ok.mp hsegs
  obtain ⟨_, hstep, ⟨⟩⟩ := Except.bind_eq_ok.mp hlast
  have hbelow : m.BelowDirectories directory := (belowDirectories_origin absolute).foldlM hinit
  obtain ⟨henter, hleads⟩ := step_eq_ok_iff.mp hstep
  -- Any other segment leads from a directory to a directory.
  cases hleads with
  | idle => exact absurd henter hclosed
  | up => exact absurd hbelow.enter_up hclosed
  | down _ hname =>
    exact ⟨⟨absolute, init⟩, name, directory, ⟨hpath, hinit, henter, hname⟩, rfl⟩

/-! ### Writing -/

theorem lookup_filter_ne {names names' : List String} (h : names ≠ names')
    (contents : List (List String × ByteArray)) :
    (contents.filter (·.1 != names')).lookup names = contents.lookup names := by
  induction contents with
  | nil => rfl
  | cons file contents ih =>
    obtain ⟨place, content⟩ := file
    by_cases hplace : place = names'
    · subst hplace
      have hother : (names == place) = false := by simpa using h
      simp [List.lookup_cons, hother, ih]
    · simp [List.lookup_cons, hplace, ih]

theorem entryAt_eq_file_iff {names : List String} {content : ByteArray} :
    m.entryAt names = some (.file content) ↔
      ¬names <+: m.directory ∧ m.files.contents.lookup names = some content := by
  unfold entryAt
  split
  · next h =>
    have habove : names <+: m.directory := by simpa using h
    simp [habove]
  · next h =>
    have hnot : ¬names <+: m.directory := by simpa using h
    split
    · next content' hlookup => simp [hnot, hlookup]
    · next hlookup =>
      rw [hlookup]
      split <;> simp

theorem entryAt_put_self {names : List String} (h : m.entryAt names ≠ some .directory)
    (content : ByteArray) : (m.put names content).entryAt names = some (.file content) := by
  refine entryAt_eq_file_iff.mpr ⟨fun hp => h ?_, by simp [put, Files.put]⟩
  exact enter_eq_ok_iff.mp (enter_above hp)

/-- All other files stay as they are. -/
theorem entryAt_put_of_ne {names names' : List String} {content : ByteArray} (h : names ≠ names')
    (hfile : m.entryAt names = some (.file content)) (content' : ByteArray) :
    (m.put names' content').entryAt names = some (.file content) := by
  rw [entryAt_eq_file_iff] at hfile ⊢
  have hother : (names == names') = false := by simpa using h
  refine ⟨hfile.1, ?_⟩
  simp only [put, Files.put, List.lookup_cons, hother, lookup_filter_ne h, hfile.2]

/-- Writing to where no directory lies makes a file of the content. -/
theorem Names.write {text name : String} {p : Path} {directory : List String}
    (h : m.Names text p name directory)
    (hentry : m.entryAt (directory ++ [name]) ≠ some .directory) (content : String) :
    m.write text content = .ok (m.put (directory ++ [name]) content.toUTF8) := by
  have hne : name ≠ "" ∧ name ≠ "." := by simpa [Path.isIdle] using h.isName.not_idle
  have hnamed : ((p.segments ++ [name]).reverse.dropWhile (· = "")).reverse =
      p.segments ++ [name] := by
    simp [hne.1]
  unfold Machine.write
  rw [h.path_eq]
  refine Except.bind_eq_ok.mpr ⟨_, rfl, ?_⟩
  simp only [hnamed, List.getLast?_concat, List.dropLast_concat]
  refine Except.bind_eq_ok.mpr ⟨_, h.foldlM_init, ?_⟩
  refine Except.bind_eq_ok.mpr ⟨_, h.enter, ?_⟩
  have hkind : ¬(name = "." ∨ name = ".." ∨
      (p.segments ++ [name]).length < (p.segments ++ [name]).length) := by
    simp [hne.2, h.isName.ne_up]
  rw [if_neg hkind, if_neg (Nat.not_lt.mpr h.isName.size_le)]
  cases hplace : m.entryAt (directory ++ [name]) with
  | none => rfl
  | some e =>
    cases e with
    | directory => exact absurd hplace hentry
    | file => rfl

/-- A path that does not end with a slash ends with a segment that is not empty. -/
theorem exists_concat_of_length_le {segs : List String} {name : String}
    (hlast : (segs.reverse.dropWhile (· = "")).reverse.getLast? = some name)
    (hlength : segs.length ≤ (segs.reverse.dropWhile (· = "")).reverse.length) :
    ∃ init, segs = init ++ [name] ∧ (segs.reverse.dropWhile (· = "")).reverse.dropLast = init ∧
      name ≠ "" := by
  have hall : segs.reverse.dropWhile (· = "") = segs.reverse :=
    (List.dropWhile_suffix _).eq_of_length_le (by simpa using hlength)
  have hfirst := List.head?_dropWhile_not (· = "") segs.reverse
  rw [hall, List.reverse_reverse] at hlast ⊢
  obtain ⟨init, rfl⟩ := List.getLast?_eq_some_iff.mp hlast
  refine ⟨init, rfl, List.dropLast_concat, ?_⟩
  rw [hall] at hfirst
  simpa using hfirst

/-- Writing makes a file in a directory. -/
theorem exists_names_of_write {text content : String} {m' : Machine}
    (h : m.write text content = .ok m') :
    ∃ p name directory, m.Names text p name directory ∧
      m' = m.put (directory ++ [name]) content.toUTF8 := by
  obtain ⟨⟨absolute, segs⟩, hpath, hnamed⟩ := Except.bind_eq_ok.mp h
  simp only at hnamed
  split at hnamed
  · cases hnamed
  · next name hlast =>
    obtain ⟨directory, hinit, hdirectory⟩ := Except.bind_eq_ok.mp hnamed
    obtain ⟨⟨⟩, henter, hwritten⟩ := Except.bind_eq_ok.mp hdirectory
    by_cases hkind : name = "." ∨ name = ".." ∨
        (segs.reverse.dropWhile (· = "")).reverse.length < segs.length
    · rw [if_pos hkind] at hwritten
      cases hwritten
    · rw [if_neg hkind] at hwritten
      by_cases hsize : maxNameSize < name.utf8ByteSize
      · rw [if_pos hsize] at hwritten
        cases hwritten
      · rw [if_neg hsize] at hwritten
        simp only [not_or, Nat.not_lt] at hkind
        obtain ⟨hnotDot, hnotUp, hlength⟩ := hkind
        obtain ⟨init, rfl, hdropLast, hne⟩ := exists_concat_of_length_le hlast hlength
        rw [hdropLast] at hinit
        have hname : IsName name :=
          ⟨by simp [Path.isIdle, hne, hnotDot], hnotUp, Nat.not_lt.mp hsize⟩
        refine ⟨⟨absolute, init⟩, name, directory, ⟨hpath, hinit, henter, hname⟩, ?_⟩
        split at hwritten <;> cases hwritten
        rfl

/-- Writing keeps every file that the path does not lead to. -/
theorem entryAt_of_write {text content : String} {m' : Machine} {place : List String}
    {kept : ByteArray} (h : m.write text content = .ok m') (hplace : m.follow text ≠ .ok place)
    (hfile : m.entryAt place = some (.file kept)) : m'.entryAt place = some (.file kept) := by
  obtain ⟨p, name, directory, hnames, rfl⟩ := exists_names_of_write h
  refine entryAt_put_of_ne ?_ hfile _
  rintro rfl
  exact hplace hnames.follow

/-- Writing to a path that leads to a file gives that file another content. -/
theorem exists_write_of_file {text : String} {place : List String} {old : ByteArray}
    (h : m.follow text = .ok place) (hfile : m.entryAt place = some (.file old))
    (content : String) :
    ∃ m', m.write text content = .ok m' ∧ m'.entryAt place = some (.file content.toUTF8) := by
  obtain ⟨p, name, directory, hnames, rfl⟩ := exists_names h hfile
  have hentry : m.entryAt (directory ++ [name]) ≠ some .directory := by simp [hfile]
  exact ⟨_, hnames.write hentry content, entryAt_put_self hentry _⟩

end Machine

end MarkupScript.CommandLine
