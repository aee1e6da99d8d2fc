import QuokyPlatform.Foundations.FileSystem

/-!
# Laws of the file system

A path is resolved the same as long as the directories and symbolic links stay. Below the real path
of a directory, and where the way leads through directories only, a path is found at its own place.
Every change keeps the tree well formed.
-/

namespace QuokyPlatform
set_option autoImplicit false
set_option maxHeartbeats 250000

namespace FileSystem

variable {fs other : FileSystem}

/-! ## Entries -/

def IsDir (fs : FileSystem) (path : Path) : Prop := ∃ id, fs.entry path = some (.dir id)

@[simp] theorem entry_nil (fs : FileSystem) : fs.entry [] = some (.dir ROOT_ID) := rfl

theorem entry_eq_get {path : Path} (h : path ≠ []) : fs.entry path = fs.entries.get path := by
  cases path with
  | nil => exact absurd rfl h
  | cons name rest => rfl

theorem entry_set {path : Path} (h : path ≠ []) (e : Entry) (q : Path) :
    (fs.set path e).entry q = if q = path then some e else fs.entry q := by
  by_cases hq : q = []
  · subst hq
    simp [h.symm]
  · rw [entry_eq_get hq, entry_eq_get hq, set, PlainObject.get_set]

theorem entry_delete {path : Path} (h : path ≠ []) (q : Path) :
    (fs.delete path).entry q = if q = path then none else fs.entry q := by
  by_cases hq : q = []
  · subst hq
    simp [h.symm]
  · rw [entry_eq_get hq, entry_eq_get hq, delete, PlainObject.get_delete]

theorem entry_map (f : Entry → Entry) (hf : ∀ id, f (.dir id) = .dir id) (q : Path) :
    ({ fs with entries := fs.entries.map f } : FileSystem).entry q = (fs.entry q).map f := by
  by_cases hq : q = []
  · subst hq
    simp [hf]
  · rw [entry_eq_get hq, entry_eq_get hq, PlainObject.get_map]

theorem IsDir.ne_file {path : Path} (h : fs.IsDir path) {id mode : ℕ} {content : Bytes} :
    fs.entry path ≠ some (.file id mode content) := by
  obtain ⟨dir, hdir⟩ := h
  simp [hdir]

theorem IsDir.present {path : Path} (h : fs.IsDir path) : fs.entry path ≠ none := by
  obtain ⟨dir, hdir⟩ := h
  simp [hdir]

/-- What has an entry lies in directories only. -/
theorem WellFormed.isDir_above (hfs : fs.WellFormed) {path rest : Path} (hrest : rest ≠ [])
    (h : fs.entry (path ++ rest) ≠ none) : fs.IsDir path := by
  induction rest using List.reverseRecOn with
  | nil => exact absurd rfl hrest
  | append_singleton init name ih =>
    obtain ⟨e, he⟩ := Option.ne_none_iff_exists'.mp h
    rw [← List.append_assoc] at he
    obtain ⟨id, hid⟩ := hfs.parent _ _ _ he
    by_cases hinit : init = []
    · subst hinit
      exact ⟨id, by simpa using hid⟩
    · exact ih hinit (by simp [hid])

theorem WellFormed.isDir_dropLast (hfs : fs.WellFormed) {path : Path} (hne : path ≠ [])
    (h : fs.entry path ≠ none) : fs.IsDir path.dropLast := by
  have hlast : fs.entry (path.dropLast ++ [path.getLast hne]) ≠ none := by
    rwa [List.dropLast_append_getLast]
  exact hfs.isDir_above (by simp) hlast

/-- Nothing lies below what is no directory. -/
theorem WellFormed.absent_below (hfs : fs.WellFormed) {path rest : Path} (hrest : rest ≠ [])
    (h : ¬ fs.IsDir path) : fs.entry (path ++ rest) = none := by
  by_contra hne
  exact h (hfs.isDir_above hrest hne)

theorem isEmpty_iff {place : Path} :
    fs.isEmpty place = true ↔ ∀ name, fs.entry (place ++ [name]) = none := by
  simp only [isEmpty, List.all_eq_true, Bool.or_eq_true, decide_eq_true_eq]
  constructor
  · intro h name
    rw [entry_eq_get (by simp), PlainObject.get_eq_none]
    intro hmem
    have hcase := h _ hmem
    simp at hcase
  · intro h path hpath
    by_cases hnil : path = []
    · exact Or.inr hnil
    · left
      rintro rfl
      have habsent := h (path.getLast hnil)
      rw [List.dropLast_append_getLast, entry_eq_get hnil, PlainObject.get_eq_none] at habsent
      exact habsent hpath

/-! ## Changes keep the tree well formed -/

/-- A new entry, or another one for what is no directory. -/
theorem WellFormed.set (hfs : fs.WellFormed) {path : Path} {e : Entry} (hne : path ≠ [])
    (hparent : fs.IsDir path.dropLast) (hplace : ¬ fs.IsDir path) (hid : e.id < fs.next) :
    (fs.set path e).WellFormed where
  parent := by
    intro q name d hd
    rw [entry_set hne] at hd
    have hq : fs.IsDir q := by
      split_ifs at hd with heq
      · rwa [← heq, List.dropLast_concat] at hparent
      · exact hfs.parent _ _ _ hd
    have hqpath : q ≠ path := by
      rintro rfl
      exact hplace hq
    obtain ⟨id, hq⟩ := hq
    exact ⟨id, by rw [entry_set hne, if_neg hqpath, hq]⟩
  fresh := by
    intro q d hd
    rw [entry_set hne] at hd
    split_ifs at hd with heq
    · cases hd
      exact hid
    · exact hfs.fresh _ _ hd

theorem WellFormed.delete (hfs : fs.WellFormed) {path : Path} (hne : path ≠ [])
    (hempty : ∀ name, fs.entry (path ++ [name]) = none) : (fs.delete path).WellFormed where
  parent := by
    intro q name d hd
    rw [entry_delete hne] at hd
    split_ifs at hd with heq
    obtain ⟨id, hid⟩ := hfs.parent _ _ _ hd
    have hqpath : q ≠ path := by
      rintro rfl
      rw [hempty name] at hd
      cases hd
    exact ⟨id, by rw [entry_delete hne, if_neg hqpath, hid]⟩
  fresh := by
    intro q d hd
    rw [entry_delete hne] at hd
    split_ifs at hd
    exact hfs.fresh _ _ hd

theorem WellFormed.delete_of_not_isDir (hfs : fs.WellFormed) {path : Path} (hne : path ≠ [])
    (h : ¬ fs.IsDir path) : (fs.delete path).WellFormed :=
  hfs.delete hne fun name => hfs.absent_below (by simp) h

theorem WellFormed.next_le (hfs : fs.WellFormed) {next : ℕ} (h : fs.next ≤ next) :
    ({ fs with next := next } : FileSystem).WellFormed where
  parent := hfs.parent
  fresh := fun path e he => Nat.lt_of_lt_of_le (hfs.fresh path e he) h

theorem WellFormed.map (hfs : fs.WellFormed) {f : Entry → Entry}
    (hdir : ∀ id, f (.dir id) = .dir id) (hid : ∀ e, (f e).id = e.id) :
    ({ fs with entries := fs.entries.map f } : FileSystem).WellFormed where
  parent := by
    intro q name d hd
    rw [entry_map f hdir] at hd
    obtain ⟨old, hold, -⟩ := Option.map_eq_some_iff.mp hd
    obtain ⟨id, hq⟩ := hfs.parent _ _ _ hold
    exact ⟨id, by rw [entry_map f hdir, hq, Option.map_some, hdir]⟩
  fresh := by
    intro q d hd
    rw [entry_map f hdir] at hd
    obtain ⟨old, hold, rfl⟩ := Option.map_eq_some_iff.mp hd
    rw [hid]
    exact hfs.fresh _ _ hold

/-! ## Resolution -/

/-- The directories and symbolic links of one tree are there in the other. -/
def Keeps (fs other : FileSystem) : Prop :=
  ∀ path e, fs.entry path = some e → e.isFile = false →
    ∃ e', other.entry path = some e' ∧ e.SameData e'

theorem Keeps.isDir (h : fs.Keeps other) {path : Path} (hdir : fs.IsDir path) :
    other.IsDir path := by
  obtain ⟨id, hid⟩ := hdir
  obtain ⟨e', he', hsame⟩ := h path _ hid rfl
  cases e' with
  | dir id' => exact ⟨id', he'⟩
  | file => exact hsame.elim
  | symlink => exact hsame.elim

/-- A way to a directory stays as it is. -/
theorem Keeps.walkWith (h : fs.Keeps other) {follow follow' : Path → Path → Except Errno Path}
    {c : Path} (hc : fs.IsDir c)
    (hfollow : ∀ dir rest, follow dir rest = .ok c → follow' dir rest = .ok c) (rest : Path) :
    ∀ dir, fs.walkWith follow dir rest = .ok c → other.walkWith follow' dir rest = .ok c := by
  induction rest with
  | nil => exact fun dir hwalk => hwalk
  | cons name rest ih =>
    intro dir hwalk
    rw [FileSystem.walkWith] at hwalk ⊢
    by_cases hname : name = ".."
    · rw [if_pos hname] at hwalk ⊢
      exact ih _ hwalk
    · rw [if_neg hname] at hwalk ⊢
      cases hentry : fs.entry (dir ++ [name]) with
      | none => simp [hentry] at hwalk
      | some e =>
        rw [hentry] at hwalk
        cases e with
        | dir id =>
          obtain ⟨id', hid'⟩ := h.isDir ⟨id, hentry⟩
          rw [hid']
          exact ih _ hwalk
        | file id mode content =>
          simp only at hwalk
          split_ifs at hwalk with hrest
          cases hwalk
          exact absurd hentry hc.ne_file
        | symlink id absolute target =>
          obtain ⟨e', he', hsame⟩ := h _ _ hentry rfl
          cases e' with
          | symlink id' absolute' target' =>
            obtain ⟨rfl, rfl⟩ := hsame
            rw [he']
            exact hfollow _ _ hwalk
          | file => exact hsame.elim
          | dir => exact hsame.elim

theorem Keeps.realpath (h : fs.Keeps other) {path c : Path} (hc : fs.IsDir c)
    (hpath : fs.realpath path = .ok c) : other.realpath path = .ok c := by
  have hwalk : ∀ links dir rest, fs.walk links dir rest = .ok c →
      other.walk links dir rest = .ok c := by
    intro links
    induction links with
    | zero => exact fun dir rest => h.walkWith hc (fun _ _ hfail => by cases hfail) rest dir
    | succ links ih => exact fun dir rest => h.walkWith hc ih rest dir
  exact hwalk _ _ _ hpath

/-- The rest of a way is walked from where its first part leads. -/
theorem walkWith_append {follow : Path → Path → Except Errno Path} {c tail : Path}
    {result : Except Errno Path} (hc : fs.IsDir c) (hresult : fs.walkWith follow c tail = result)
    (hfollow : ∀ dir rest, follow dir rest = .ok c → follow dir (rest ++ tail) = result)
    (rest : Path) :
    ∀ dir, fs.walkWith follow dir rest = .ok c → fs.walkWith follow dir (rest ++ tail) = result := by
  induction rest with
  | nil =>
    intro dir hwalk
    cases hwalk
    exact hresult
  | cons name rest ih =>
    intro dir hwalk
    rw [List.cons_append, walkWith]
    rw [walkWith] at hwalk
    by_cases hname : name = ".."
    · rw [if_pos hname] at hwalk ⊢
      exact ih _ hwalk
    · rw [if_neg hname] at hwalk ⊢
      cases hentry : fs.entry (dir ++ [name]) with
      | none => simp [hentry] at hwalk
      | some e =>
        rw [hentry] at hwalk
        cases e with
        | dir id => exact ih _ hwalk
        | file id mode content =>
          simp only at hwalk
          split_ifs at hwalk with hrest
          cases hwalk
          exact absurd hentry hc.ne_file
        | symlink id absolute target =>
          show follow _ (target ++ (rest ++ tail)) = result
          rw [← List.append_assoc]
          exact hfollow _ _ hwalk

theorem realpath_append {path c tail : Path} {result : Except Errno Path} (hc : fs.IsDir c)
    (hresult : ∀ follow, fs.walkWith follow c tail = result) (hpath : fs.realpath path = .ok c) :
    fs.realpath (path ++ tail) = result := by
  have hwalk : ∀ links dir rest, fs.walk links dir rest = .ok c →
      fs.walk links dir (rest ++ tail) = result := by
    intro links
    induction links with
    | zero =>
      exact fun dir rest => walkWith_append hc (hresult _) (fun _ _ hfail => by cases hfail) rest dir
    | succ links ih => exact fun dir rest => walkWith_append hc (hresult _) ih rest dir
  exact hwalk _ _ _ hpath

/-- Where only directories follow, the way leads down them. -/
theorem WellFormed.walkWith_isDir (hfs : fs.WellFormed)
    {follow : Path → Path → Except Errno Path} (tail : Path) :
    ∀ dir, ".." ∉ tail → fs.IsDir (dir ++ tail) → fs.walkWith follow dir tail = .ok (dir ++ tail) := by
  induction tail with
  | nil =>
    intro dir _ _
    simp [walkWith]
  | cons name rest ih =>
    intro dir hup hdir
    have hsplit : dir ++ name :: rest = dir ++ [name] ++ rest := by simp
    rw [hsplit] at hdir ⊢
    have hname : fs.IsDir (dir ++ [name]) := by
      by_cases hrest : rest = []
      · simpa [hrest] using hdir
      · exact hfs.isDir_above hrest hdir.present
    obtain ⟨id, hid⟩ := hname
    rw [walkWith, if_neg (by rintro rfl; simp at hup), hid]
    exact ih _ (fun hmem => hup (List.mem_cons_of_mem _ hmem)) hdir

/-- Where a component is missing, the way ends. -/
theorem WellFormed.walkWith_missing (hfs : fs.WellFormed)
    {follow : Path → Path → Except Errno Path} {dirs rest : Path} {name : String} (dir : Path)
    (hup : ".." ∉ dirs ++ [name]) (hdir : fs.IsDir (dir ++ dirs))
    (hmissing : fs.entry (dir ++ dirs ++ [name]) = none) :
    fs.walkWith follow dir (dirs ++ name :: rest) = .error .ENOENT := by
  induction dirs generalizing dir with
  | nil =>
    rw [List.nil_append, walkWith, if_neg (by rintro rfl; simp at hup)]
    simp only [List.append_nil] at hmissing
    rw [hmissing]
  | cons first dirs ih =>
    have hsplit : dir ++ first :: dirs = dir ++ [first] ++ dirs := by simp
    rw [hsplit] at hdir hmissing
    have hfirst : fs.IsDir (dir ++ [first]) := by
      by_cases hrest : dirs = []
      · simpa [hrest] using hdir
      · exact hfs.isDir_above hrest hdir.present
    obtain ⟨id, hid⟩ := hfirst
    rw [List.cons_append, walkWith, if_neg (by rintro rfl; simp at hup), hid]
    exact ih _ (fun hmem => hup (List.mem_cons_of_mem _ hmem)) hdir hmissing

/-! ## Below a real directory -/

/-- The path leads to the directory. -/
structure Leads (fs : FileSystem) (path real : Path) : Prop where
  realpath : fs.realpath path = .ok real
  isDir : fs.IsDir real

theorem Leads.keeps {path real : Path} (h : fs.Leads path real) (hkeeps : fs.Keeps other) :
    other.Leads path real :=
  ⟨hkeeps.realpath h.isDir h.realpath, hkeeps.isDir h.isDir⟩

theorem Leads.below {path real tail : Path} (h : fs.Leads path real) (hfs : fs.WellFormed)
    (hup : ".." ∉ tail) (hdir : fs.IsDir (real ++ tail)) : fs.Leads (path ++ tail) (real ++ tail) :=
  ⟨realpath_append h.isDir (fun _ => hfs.walkWith_isDir tail real hup hdir) h.realpath, hdir⟩

theorem Leads.missing {path real dirs rest : Path} {name : String} (h : fs.Leads path real)
    (hfs : fs.WellFormed) (hup : ".." ∉ dirs ++ [name]) (hdir : fs.IsDir (real ++ dirs))
    (hmissing : fs.entry (real ++ dirs ++ [name]) = none) :
    fs.realpath (path ++ (dirs ++ name :: rest)) = .error .ENOENT :=
  realpath_append h.isDir (fun _ => hfs.walkWith_missing real hup hdir hmissing) h.realpath

theorem Leads.locate {path real : Path} (h : fs.Leads path real) (name : String) :
    fs.locate (path ++ [name]) = .ok (real ++ [name]) := by
  obtain ⟨id, hid⟩ := h.isDir
  simp [FileSystem.locate, h.realpath, hid, bind, Except.bind]

/-- A path that can be looked at has its place in a directory. -/
theorem locate_isDir {path place : Path} (h : fs.locate path = .ok place) :
    place ≠ [] ∧ fs.IsDir place.dropLast := by
  rw [FileSystem.locate] at h
  cases hlast : path.getLast? with
  | none => simp [hlast] at h
  | some name =>
    cases hparent : fs.realpath path.dropLast with
    | error e => simp [hlast, hparent, bind, Except.bind] at h
    | ok parent =>
      simp only [hlast, hparent, bind, Except.bind] at h
      split at h
      next id hid =>
        cases h
        exact ⟨by simp, id, by simpa using hid⟩
      next => cases h

/-- A file in the directory is its own real path. -/
theorem Leads.realpath_file {path real : Path} (h : fs.Leads path real) {name : String}
    (hname : name ≠ "..") {id mode : ℕ} {content : Bytes}
    (hfile : fs.entry (real ++ [name]) = some (.file id mode content)) :
    fs.realpath (path ++ [name]) = .ok (real ++ [name]) := by
  apply realpath_append h.isDir _ h.realpath
  intro follow
  simp [walkWith, hname, hfile]

/-! ## What a call does at its place -/

/-- The entries of the one tree are those of the other, but for one place. -/
def Differs (fs other : FileSystem) (place : Path) (there : Option Entry) : Prop :=
  ∀ q, other.entry q = if q = place then there else fs.entry q

theorem lstat_eq {path place : Path} (hne : path ≠ []) (h : fs.locate path = .ok place) :
    fs.lstat path = fs.present place := by
  simp [lstat, hne, h, bind, Except.bind]

theorem present_file {path : Path} {e : Entry} (h : fs.entry path = some e) :
    fs.present path = .ok e := by
  simp [present, h]

section
variable {path place : Path} (hplace : fs.locate path = .ok place)

include hplace in
theorem create_eq {mk : ℕ → Entry} :
    fs.create path mk = match fs.entry place with
      | some _ => .error .EEXIST
      | none => .ok { fs.set place (mk fs.next) with next := fs.next + 1 } := by
  cases hentry : fs.entry place with
  | none => simp [create, hplace, hentry, bind, Except.bind]
  | some e => simp [create, hplace, hentry, bind, Except.bind]

include hplace in
theorem create_absent {mk : ℕ → Entry} (h : fs.entry place = none) :
    fs.create path mk = .ok { fs.set place (mk fs.next) with next := fs.next + 1 } := by
  simp [create_eq hplace, h]

include hplace in
theorem create_there {mk : ℕ → Entry} {e : Entry} (h : fs.entry place = some e) :
    fs.create path mk = .error .EEXIST := by
  simp [create_eq hplace, h]

include hplace in
/-- What is made has the next id. -/
theorem WellFormed.create (hfs : fs.WellFormed) {mk : ℕ → Entry} (hmk : ∀ id, (mk id).id = id)
    (h : fs.entry place = none) :
    ({ fs.set place (mk fs.next) with next := fs.next + 1 } : FileSystem).WellFormed := by
  obtain ⟨hne, hparent⟩ := locate_isDir hplace
  have hnext : ({ fs with next := fs.next + 1 } : FileSystem).WellFormed := hfs.next_le (by omega)
  have hnot : ¬ fs.IsDir place := fun hdir => hdir.present h
  exact hnext.set hne hparent hnot (by simp [hmk])

include hplace in
theorem differs_create {e : Entry} :
    fs.Differs ({ fs.set place e with next := fs.next + 1 } : FileSystem) place (some e) :=
  entry_set (locate_isDir hplace).1 e

include hplace in
theorem link_file {source from_ : Path} {id mode : ℕ} {content : Bytes}
    (hfs : fs.WellFormed) (hsource : fs.locate from_ = .ok source)
    (hfile : fs.entry source = some (.file id mode content)) (h : fs.entry place = none) :
    ∃ next, fs.link from_ path = .ok next ∧ next.WellFormed ∧ next.next = fs.next ∧
      fs.Differs next place (some (.file id mode content)) := by
  obtain ⟨hne, hparent⟩ := locate_isDir hplace
  refine ⟨fs.set place (.file id mode content), ?_, ?_, rfl, entry_set hne _⟩
  · simp [link, hplace, hsource, present, hfile, h, bind, Except.bind]
  · exact hfs.set hne hparent (fun hdir => hdir.present h) (hfs.fresh _ _ hfile)

include hplace in
theorem unlink_file {id mode : ℕ} {content : Bytes} (hfs : fs.WellFormed)
    (hfile : fs.entry place = some (.file id mode content)) :
    ∃ next, fs.unlink path = .ok next ∧ next.WellFormed ∧ next.next = fs.next ∧
      fs.Differs next place none := by
  obtain ⟨hne, -⟩ := locate_isDir hplace
  refine ⟨fs.delete place, ?_, ?_, rfl, entry_delete hne⟩
  · simp [unlink, hplace, present, hfile, bind, Except.bind]
  · exact hfs.delete_of_not_isDir hne fun hdir => hdir.ne_file hfile

include hplace in
theorem rmdir_empty (hfs : fs.WellFormed) (hdir : fs.IsDir place)
    (hempty : fs.isEmpty place = true) :
    ∃ next, fs.rmdir path = .ok next ∧ next.WellFormed ∧ next.next = fs.next ∧
      fs.Differs next place none := by
  obtain ⟨hne, -⟩ := locate_isDir hplace
  obtain ⟨id, hid⟩ := hdir
  refine ⟨fs.delete place, ?_, ?_, rfl, entry_delete hne⟩
  · simp [rmdir, hplace, present, hid, hempty, bind, Except.bind]
  · exact hfs.delete hne (isEmpty_iff.mp hempty)

include hplace in
theorem rmdir_not_empty (hdir : fs.IsDir place) (hempty : fs.isEmpty place = false) :
    fs.rmdir path = .error .ENOTEMPTY := by
  obtain ⟨id, hid⟩ := hdir
  simp [rmdir, hplace, present, hid, hempty, bind, Except.bind]

include hplace in
/-- A file takes the place of what is no directory and not the file itself. -/
theorem rename_file {source from_ : Path} {id mode : ℕ} {content : Bytes}
    (hfs : fs.WellFormed) (hsource : fs.locate from_ = .ok source)
    (hfile : fs.entry source = some (.file id mode content)) (hnot : ¬ fs.IsDir place)
    (hother : ∀ e, fs.entry place = some e → e.id ≠ id) :
    ∃ next, fs.rename from_ path = .ok next ∧ next.WellFormed ∧ next.next = fs.next ∧
      (fs.delete source).Differs next place (some (.file id mode content)) := by
  obtain ⟨hne, hparent⟩ := locate_isDir hplace
  obtain ⟨hsne, -⟩ := locate_isDir hsource
  have hsnot : ¬ fs.IsDir source := fun hdir => hdir.ne_file hfile
  refine ⟨(fs.delete source).set place (.file id mode content), ?_, ?_, rfl, entry_set hne _⟩
  · simp only [rename, hplace, hsource, present, hfile, bind, Except.bind]
    cases hentry : fs.entry place with
    | none => rfl
    | some e =>
      cases e with
      | dir there => exact absurd ⟨there, hentry⟩ hnot
      | file there mode' content' =>
        have hne := hother _ hentry
        simp only [Entry.id] at hne
        simp [Entry.isFile, Entry.id, hne]
      | symlink there absolute target => simp [Entry.isFile]
  · have hdelete := hfs.delete_of_not_isDir hsne hsnot
    have hkept : ∀ q, (fs.delete source).IsDir q ↔ fs.IsDir q := by
      intro q
      simp only [IsDir, entry_delete hsne]
      by_cases hq : q = source
      · subst hq
        simp [hfile]
      · simp [hq]
    apply hdelete.set hne ((hkept _).mpr hparent) (fun hdir => hnot ((hkept _).mp hdir))
    exact hfs.fresh _ _ hfile

end

/-- The mode of one file is changed, under all of its names. -/
theorem chmod_file {path place : Path} {id mode old : ℕ} {content : Bytes} (hfs : fs.WellFormed)
    (hplace : fs.realpath path = .ok place)
    (hfile : fs.entry place = some (.file id old content)) :
    ∃ next, fs.chmod path mode = .ok next ∧ next.WellFormed ∧ next.next = fs.next ∧
      ∀ q, next.entry q = (fs.entry q).map (Entry.chmod id mode) := by
  have hid : ∀ e : Entry, (e.chmod id mode).id = e.id := by
    intro e
    cases e <;> rfl
  refine ⟨{ fs with entries := fs.entries.map (Entry.chmod id mode) }, ?_, ?_, rfl, ?_⟩
  · simp [chmod, stat, hplace, present, hfile, bind, Except.bind]
  · exact hfs.map (fun _ => rfl) hid
  · exact entry_map _ fun _ => rfl

theorem chmod_of_id_ne {e : Entry} {id mode : ℕ} (h : e.id ≠ id) : e.chmod id mode = e := by
  cases e with
  | file id' mode' content =>
    simp only [Entry.id] at h
    simp [Entry.chmod, h]
  | dir => rfl
  | symlink => rfl

end FileSystem

end QuokyPlatform
