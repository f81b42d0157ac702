import PackedStack.Files.FileSystem
import PackedStack.Proofs.Failure

/-!
# Making files

Making a file means creating it and then writing to it, and each of the two may fail
(`FileSystem.store`). Whatever happens, no other place of the file system changes
(`get?_store_of_ne`), and a file that was made holds what was written to it (`of_store_eq_none`).
Its path then leads to it (`openFile_of_target`). A second file whose path is that of the first with
some text behind it is made at another place, and where it is made does not depend on the first
(`target_store`).
-/

namespace PackedStack

/-! ## Paths -/

/-- Text without the separator only makes the last piece longer. -/
theorem Text.exists_splitOn_append (separator : Char) (cs : List Char) :
    ∃ pieces last, (last = [] → cs = [] ∨ cs.getLast? = some separator) ∧
      ∀ more, separator ∉ more → splitOn separator (cs ++ more) = pieces ++ [last ++ more] := by
  induction cs with
  | nil => exact ⟨[], [], fun _ => .inl rfl, fun more hmore => splitOn_of_not_mem hmore⟩
  | cons c cs ih =>
    obtain ⟨pieces, last, hlast, hsplit⟩ := ih
    by_cases hc : c = separator
    · refine ⟨[] :: pieces, last, fun hnil => .inr ?_, fun more hmore => ?_⟩
      · rcases hlast hnil with rfl | hcs
        · simp [hc]
        · simp [List.getLast?_cons, hcs]
      · rw [hc, List.cons_append, splitOn_cons_self, hsplit more hmore]
        rfl
    · cases pieces with
      | nil =>
        refine ⟨[], c :: last, by simp, fun more hmore => ?_⟩
        exact splitOn_cons_of_ne hc (hsplit more hmore)
      | cons piece pieces =>
        refine ⟨(c :: piece) :: pieces, last, fun hnil => .inr ?_, fun more hmore => ?_⟩
        · rcases hlast hnil with rfl | hcs
          · have hone := congrArg List.length (hsplit [] List.not_mem_nil)
            rw [List.append_nil, length_splitOn] at hone
            simp at hone
          · simp [List.getLast?_cons, hcs]
        · exact splitOn_cons_of_ne hc (hsplit more hmore)

namespace Path

/-- What the path is that a text spells, if it spells one. -/
theorem of_parse_eq_ok {text : String} {path : Path} (h : parse text = .ok path) :
    text.toList ≠ [] ∧ path = {
      fromRoot := text.toList.head? == some '/'
      names := ((Text.splitOn '/' text.toList).filter (!·.isEmpty)).map String.ofList
      endsInSlash := text.toList.getLast? == some '/' } := by
  simp only [parse] at h
  split at h
  · cases h
  · split at h
    · cases h
    · rename_i hne
      split at h
      · cases h
      · cases h
        exact ⟨by simpa using hne, rfl⟩

/-- Text behind a path that names a file makes the name of the file longer. -/
theorem parse_append {text more : String} {path path' : Path} (h : parse text = .ok path)
    (hslash : path.endsInSlash = false) (hmore : '/' ∉ more.toList)
    (h' : parse (text ++ more) = .ok path') :
    ∃ parents name, path.names = parents ++ [name] ∧ path'.names = parents ++ [name ++ more] ∧
      path'.fromRoot = path.fromRoot ∧ path'.endsInSlash = false := by
  obtain ⟨hne, rfl⟩ := of_parse_eq_ok h
  obtain ⟨-, rfl⟩ := of_parse_eq_ok h'
  obtain ⟨pieces, last, hlast, hsplit⟩ := Text.exists_splitOn_append '/' text.toList
  have hslash : text.toList.getLast? ≠ some '/' := by simpa using hslash
  have hname : last ≠ [] := by
    intro hnil
    rcases hlast hnil with hcs | hcs
    · exact hne hcs
    · exact hslash hcs
  have hpath := hsplit [] (by simp)
  rw [List.append_nil, List.append_nil] at hpath
  refine ⟨(pieces.filter (!·.isEmpty)).map String.ofList, String.ofList last, ?_, ?_, ?_, ?_⟩
  · simp [hpath, List.filter_append, hname]
  · have hsuffix : last ++ more.toList ≠ [] := by simp [hname]
    simp [hsplit _ hmore, List.filter_append, hsuffix, String.ofList_append]
  · simp [List.head?_append, List.head?_eq_some_head hne]
  · simp only [String.toList_append, beq_eq_false_iff_ne, ne_eq]
    intro hend
    rw [List.getLast?_append] at hend
    cases hlast' : more.toList.getLast? with
    | none => rw [hlast'] at hend; exact hslash hend
    | some c =>
      rw [hlast'] at hend
      obtain rfl : c = '/' := Option.some.inj hend
      exact hmore (List.mem_of_mem_getLast? hlast')

end Path

/-! ## Walking -/

/-- Whether a node is a device, which keeps nothing of what is written to it. -/
def Node.isDevice : Node → Bool
  | null | full => true
  | _ => false

namespace FileSystem

variable {fs fs' : FileSystem}

/-- The second file system has the directories of the first, and has lost none of its nodes. -/
structure Keeps (fs fs' : FileSystem) : Prop where
  workingDirectory : fs'.workingDirectory = fs.workingDirectory
  directory : ∀ l, fs.get? l = some .directory → fs'.get? l = some .directory
  isSome : ∀ l, (fs.get? l).isSome → (fs'.get? l).isSome

theorem Keeps.refl (fs : FileSystem) : fs.Keeps fs := ⟨rfl, fun _ h => h, fun _ h => h⟩

theorem Keeps.trans {fs'' : FileSystem} (h : fs.Keeps fs') (h' : fs'.Keeps fs'') : fs.Keeps fs'' :=
  ⟨h'.workingDirectory.trans h.workingDirectory, fun l hl => h'.directory l (h.directory l hl),
    fun l hl => h'.isSome l (h.isSome l hl)⟩

theorem ne_nil_of_not_directory {location : Location} (h : fs.get? location ≠ some .directory) :
    location ≠ [] := by
  rintro rfl
  exact h rfl

/-- Only a node that is no directory is replaced. -/
theorem keeps_put {location : Location} (h : fs.get? location ≠ some .directory)
    (bytes : List UInt8) : fs.Keeps (fs.put location (.file bytes)) := by
  have hne := ne_nil_of_not_directory h
  refine ⟨rfl, fun l hl => ?_, fun l hl => ?_⟩
  · rwa [get?_put_of_ne]
    rintro rfl
    exact h hl
  · by_cases heq : l = location
    · simp [heq, hne]
    · rwa [get?_put_of_ne _ heq]

theorem walk_append (fs : FileSystem) (start : Location) (names more : List String) :
    fs.walk start (names ++ more) = fs.walk start names >>= fun l => fs.walk l more := by
  induction names generalizing start with
  | nil => rfl
  | cons name names ih =>
    rw [List.cons_append, walk, walk]
    split
    · split
      · exact ih start
      · split
        · exact ih start.dropLast
        · cases fs.child start name with
          | error fault => rfl
          | ok c => exact ih c.1
    · rfl
    · rfl

theorem child_eq_ok_iff {parent : Location} {name : String} {c : Location × Node} :
    fs.child parent name = .ok c ↔ name.utf8ByteSize ≤ Path.maxNameLength ∧
      c.1 = parent ++ [name] ∧ fs.get? (parent ++ [name]) = some c.2 := by
  rw [child]
  split
  · simp [Nat.not_le_of_lt, *]
  · cases hnode : fs.get? (parent ++ [name]) with
    | none => simp
    | some node =>
      obtain ⟨l, node'⟩ := c
      constructor
      · intro h
        cases h
        exact ⟨by omega, rfl, rfl⟩
      · rintro ⟨-, rfl, hnode'⟩
        cases hnode'
        rfl

/-- A walk that leads somewhere leads there still. -/
theorem Keeps.walk (h : fs.Keeps fs') {start : Location} {names : List String} {l : Location}
    (hwalk : fs.walk start names = .ok l) : fs'.walk start names = .ok l := by
  induction names generalizing start with
  | nil => exact hwalk
  | cons name names ih =>
    rw [FileSystem.walk] at hwalk ⊢
    cases hstart : fs.get? start with
    | none => rw [hstart] at hwalk; cases hwalk
    | some node =>
      cases node with
      | directory =>
        rw [hstart] at hwalk
        rw [h.directory start hstart]
        by_cases hdot : name = "."
        · simp only [hdot, if_true] at hwalk ⊢
          exact ih hwalk
        · by_cases hdots : name = ".."
          · simp only [hdots, if_true] at hwalk ⊢
            exact ih hwalk
          · simp only [hdot, hdots, if_false] at hwalk ⊢
            obtain ⟨c, hc, hrest⟩ := bind_eq_ok_iff.1 hwalk
            obtain ⟨hlength, hplace, hnode⟩ := child_eq_ok_iff.1 hc
            have hsome := h.isSome (start ++ [name]) (by simp [hnode])
            obtain ⟨node', hnode'⟩ := Option.isSome_iff_exists.1 hsome
            have hchild : fs'.child start name = .ok (c.1, node') :=
              child_eq_ok_iff.2 ⟨hlength, hplace, hnode'⟩
            rw [hchild]
            exact ih hrest
      | _ => rw [hstart] at hwalk; cases hwalk

/-! ## Where a file is made -/

/-- The text of a path leads to a place for a file: to a name in a directory. -/
structure Leads (fs : FileSystem) (text : String) (parent : Location) (name : String) : Prop where
  path : ∃ path parents, Path.parse text = .ok path ∧ path.endsInSlash = false ∧
    path.names = parents ++ [name] ∧ fs.walk (fs.start path) parents = .ok parent
  directory : fs.get? parent = some .directory
  ne_dot : name ≠ "."
  ne_dots : name ≠ ".."

theorem start_of_keeps (h : fs.Keeps fs') (path : Path) : fs'.start path = fs.start path := by
  rw [start, start, h.workingDirectory]

section

variable {text : String} {parent : Location} {name : String}

theorem Leads.of_keeps (h : fs.Leads text parent name) (hkeeps : fs.Keeps fs') :
    fs'.Leads text parent name := by
  obtain ⟨path, parents, hparse, hslash, hnames, hwalk⟩ := h.path
  refine ⟨⟨path, parents, hparse, hslash, hnames, ?_⟩, hkeeps.directory _ h.directory, h.ne_dot,
    h.ne_dots⟩
  rw [start_of_keeps hkeeps]
  exact hkeeps.walk hwalk

/-- A path that leads to a place for a file opens what is there. -/
theorem openFile_of_leads (h : fs.Leads text parent name)
    (hlength : name.utf8ByteSize ≤ Path.maxNameLength)
    (hsome : (fs.get? (parent ++ [name])).isSome) : fs.openFile text = .ok (parent ++ [name]) := by
  obtain ⟨path, parents, hparse, hslash, hnames, hwalk⟩ := h.path
  obtain ⟨node, hnode⟩ := Option.isSome_iff_exists.1 hsome
  have hchild : fs.child parent name = .ok (parent ++ [name], node) :=
    child_eq_ok_iff.2 ⟨hlength, rfl, hnode⟩
  have hlast : fs.walk parent [name] = .ok (parent ++ [name]) := by
    simp only [walk, h.directory, h.ne_dot, h.ne_dots, if_false, hchild]
    rfl
  have hall : fs.walk (fs.start path) path.names = .ok (parent ++ [name]) := by
    rw [hnames, walk_append, hwalk]
    exact hlast
  simp only [openFile, hparse]
  show (fs.walk (fs.start path) path.names >>= _) = _
  rw [hall]
  show (if path.endsInSlash ∧ _ then _ else _) = _
  rw [if_neg (by simp [hslash])]
  rfl

/-- Makes an empty file at a location, or empties the one that is there. -/
def createAt (fs : FileSystem) (location : Location) : Except SystemFault FileSystem :=
  match fs.get? location with
  | some .directory => .error .isDirectory
  | some (.file _) | none => .ok (fs.put location (.file []))
  | some .null | some .full => .ok fs

/-- A file is created at the place to which its path leads. -/
theorem create_of_leads (h : fs.Leads text parent name) :
    fs.create text =
      if Path.maxNameLength < name.utf8ByteSize then .error .nameTooLong
      else (fs.createAt (parent ++ [name])).map fun fs' => (parent ++ [name], fs') := by
  obtain ⟨path, parents, hparse, hslash, hnames, hwalk⟩ := h.path
  have hlast : path.names.getLast? = some name := by simp [hnames]
  have hparents : path.names.dropLast = parents := by simp [hnames]
  simp only [create, hparse, bind, Except.bind, hlast, hparents, hwalk, h.directory, hslash]
  split
  · rename_i heq; cases heq
  · rename_i heq; exact absurd (Option.some.inj heq) h.ne_dot
  · rename_i heq; exact absurd (Option.some.inj heq) h.ne_dots
  · rename_i heq
    cases heq
    rw [if_neg (not_not_intro rfl), if_neg Bool.false_ne_true, child, createAt]
    by_cases hlength : Path.maxNameLength < name.utf8ByteSize
    · rw [if_pos hlength, if_pos hlength]
    · rw [if_neg hlength, if_neg hlength]
      cases fs.get? (parent ++ [name]) with
      | none => rfl
      | some node => cases node <;> rfl

/-- A file is created only where its path leads to a place for it. -/
theorem exists_leads_of_create {location : Location} (h : fs.create text = .ok (location, fs')) :
    ∃ parent name, fs.Leads text parent name := by
  simp only [create] at h
  obtain ⟨path, hparse, h⟩ := bind_eq_ok_iff.1 h
  have hrefused : ∀ l : Except SystemFault Location,
      (l >>= fun _ => .error .isDirectory) ≠ Except.ok (location, fs') := by
    intro l heq
    obtain ⟨_, -, heq⟩ := bind_eq_ok_iff.1 heq
    cases heq
  split at h
  · exact absurd h (hrefused _)
  · exact absurd h (hrefused _)
  · exact absurd h (hrefused _)
  · rename_i name hdot hdots hlast
    obtain ⟨parent, hwalk, h⟩ := bind_eq_ok_iff.1 h
    split at h
    · cases h
    · rename_i hdirectory
      split at h
      · cases h
      · rename_i hslash
        obtain ⟨parents, hnames⟩ := List.getLast?_eq_some_iff.1 hlast
        rw [hnames, List.dropLast_concat] at hwalk
        exact ⟨parent, name, ⟨path, parents, hparse, by simpa using hslash, hnames, hwalk⟩,
          Decidable.not_not.1 hdirectory, hdot, hdots⟩

end

/-! ## Creating and writing -/

section

variable {location : Location}

/-- The second file system keeps all of the first but, perhaps, the node at one location. -/
structure KeepsBut (location : Location) (fs fs' : FileSystem) : Prop extends Keeps fs fs' where
  get?_of_ne : ∀ l ≠ location, fs'.get? l = fs.get? l

theorem KeepsBut.refl (location : Location) (fs : FileSystem) : fs.KeepsBut location fs :=
  ⟨.refl fs, fun _ _ => rfl⟩

theorem KeepsBut.trans {fs'' : FileSystem} (h : KeepsBut location fs fs')
    (h' : KeepsBut location fs' fs'') : KeepsBut location fs fs'' :=
  ⟨h.toKeeps.trans h'.toKeeps, fun l hl => (h'.get?_of_ne l hl).trans (h.get?_of_ne l hl)⟩

theorem keepsBut_put (h : fs.get? location ≠ some .directory) (bytes : List UInt8) :
    KeepsBut location fs (fs.put location (.file bytes)) :=
  ⟨keeps_put h bytes, fun _ hl => get?_put_of_ne fs hl _⟩

/-- Whether there is no device at a location, so that it can hold a file. -/
def HoldsFiles (fs : FileSystem) (location : Location) : Prop :=
  ∀ node ∈ fs.get? location, node.isDevice = false

instance (fs : FileSystem) (location : Location) : Decidable (fs.HoldsFiles location) :=
  inferInstanceAs (Decidable (∀ node ∈ fs.get? location, node.isDevice = false))

/-- A file is created empty, and in place of no directory. -/
theorem of_createAt (h : fs.createAt location = .ok fs') :
    KeepsBut location fs fs' ∧ (fs'.get? location).isSome ∧
      (fs.HoldsFiles location → fs'.get? location = some (.file [])) := by
  have hput (hnode : fs.get? location ≠ some .directory) :
      KeepsBut location fs (fs.put location (.file [])) ∧
        ((fs.put location (.file [])).get? location).isSome ∧
        (fs.HoldsFiles location →
          (fs.put location (.file [])).get? location = some (.file [])) := by
    have hself := get?_put_self fs (ne_nil_of_not_directory hnode) (.file [])
    exact ⟨keepsBut_put hnode [], by rw [hself]; rfl, fun _ => hself⟩
  have hdevice (node : Node) (hnode : fs.get? location = some node)
      (htrue : node.isDevice = true) :
      KeepsBut location fs fs ∧ (fs.get? location).isSome ∧
        (fs.HoldsFiles location → fs.get? location = some (.file [])) := by
    refine ⟨.refl location fs, by rw [hnode]; rfl, fun hholds => ?_⟩
    rw [hholds node hnode] at htrue
    cases htrue
  rw [createAt] at h
  split at h
  · cases h
  · rename_i hnode; cases h; exact hput (by simp [hnode])
  · rename_i hnode; cases h; exact hput (by simp [hnode])
  · rename_i hnode; cases h; exact hdevice _ hnode rfl
  · rename_i hnode; cases h; exact hdevice _ hnode rfl

/-- Writing appends to a file that is there. -/
theorem of_write {bytes : List UInt8} (h : fs.write location bytes = .ok fs') :
    KeepsBut location fs fs' ∧ ∀ old, fs.get? location = some (.file old) →
      fs'.get? location = some (.file (old ++ bytes)) := by
  rw [write] at h
  split at h
  · rename_i old hnode
    cases h
    have hdirectory : fs.get? location ≠ some .directory := by simp [hnode]
    refine ⟨keepsBut_put hdirectory _, fun old' hold => ?_⟩
    cases hnode.symm.trans hold
    exact get?_put_self fs (ne_nil_of_not_directory hdirectory) _
  · rename_i hnode; cases h; exact ⟨.refl location fs, by simp [hnode]⟩
  · rename_i hnode
    split at h
    · cases h; exact ⟨.refl location fs, by simp [hnode]⟩
    · cases h
  · cases h
  · cases h

end

/-! ## Making a file -/

/-- Creates a file and writes bytes to it: the system afterwards, and why it failed if it did. -/
def store (fs : FileSystem) (path : String) (bytes : List UInt8) : FileSystem × Option Cause :=
  match fs.create path with
  | .error fault => (fs, some (.createFailed path fault))
  | .ok (location, created) =>
    match created.write location bytes with
    | .error fault => (created, some (.writeFailed path fault))
    | .ok written => (written, none)

/-- Where a file is made, if it can be created at all. -/
def target (fs : FileSystem) (path : String) : Option Location :=
  match fs.create path with
  | .error _ => none
  | .ok (location, _) => some location

section

variable {text : String} {location : Location}

theorem target_of_leads {parent : Location} {name : String} (h : fs.Leads text parent name) :
    fs.target text =
      if name.utf8ByteSize ≤ Path.maxNameLength ∧ fs.get? (parent ++ [name]) ≠ some .directory then
        some (parent ++ [name])
      else none := by
  rw [target, create_of_leads h, createAt]
  by_cases hlength : Path.maxNameLength < name.utf8ByteSize
  · rw [if_pos hlength, if_neg (by omega)]
  · rw [if_neg hlength]
    have hle : name.utf8ByteSize ≤ Path.maxNameLength := by omega
    cases fs.get? (parent ++ [name]) with
    | none => simp [hle, Except.map]
    | some node => cases node <;> simp [hle, Except.map]

theorem exists_leads_of_target (h : fs.target text = some location) :
    ∃ parent name, fs.Leads text parent name ∧ name.utf8ByteSize ≤ Path.maxNameLength ∧
      fs.get? location ≠ some .directory ∧ location = parent ++ [name] := by
  have hcreate : ∃ created, fs.create text = .ok (location, created) := by
    rw [target] at h
    split at h
    · cases h
    · rename_i created hcreate
      cases h
      exact ⟨created, hcreate⟩
  obtain ⟨created, hcreate⟩ := hcreate
  obtain ⟨parent, name, hleads⟩ := exists_leads_of_create hcreate
  rw [target_of_leads hleads] at h
  split at h
  · rename_i hplace
    cases h
    exact ⟨parent, name, hleads, hplace.1, hplace.2, rfl⟩
  · cases h

/-- The path of a file leads to it as long as it is there. -/
theorem openFile_of_target (h : fs.target text = some location) (hkeeps : fs.Keeps fs')
    (hsome : (fs'.get? location).isSome) : fs'.openFile text = .ok location := by
  obtain ⟨parent, name, hleads, hlength, -, rfl⟩ := exists_leads_of_target h
  exact openFile_of_leads (hleads.of_keeps hkeeps) hlength hsome

/-- Making a file changes nothing where it cannot be created, and otherwise at most the place where
it is made. -/
theorem store_cases (fs : FileSystem) (text : String) (bytes : List UInt8) :
    (fs.target text = none ∧ (fs.store text bytes).1 = fs ∧ (fs.store text bytes).2 ≠ none) ∨
      ∃ location, fs.target text = some location ∧ KeepsBut location fs (fs.store text bytes).1 ∧
        ((fs.store text bytes).1.get? location).isSome ∧
        ((fs.store text bytes).2 = none → fs.HoldsFiles location →
          (fs.store text bytes).1.get? location = some (.file bytes)) := by
  rw [target, store]
  cases hcreate : fs.create text with
  | error fault => exact .inl ⟨rfl, rfl, Option.some_ne_none _⟩
  | ok c =>
    obtain ⟨location, created⟩ := c
    obtain ⟨parent, name, hleads⟩ := exists_leads_of_create hcreate
    rw [create_of_leads hleads] at hcreate
    split at hcreate
    · cases hcreate
    · obtain ⟨created', hat, heq⟩ := map_eq_ok_iff.1 hcreate
      cases heq
      obtain ⟨hkeeps, hsome, hempty⟩ := of_createAt hat
      refine .inr ⟨_, rfl, ?_⟩
      dsimp only
      cases hwrite : created.write (parent ++ [name]) bytes with
      | error fault => exact ⟨hkeeps, hsome, fun h => by cases h⟩
      | ok written =>
        obtain ⟨hkeeps', happended⟩ := of_write hwrite
        exact ⟨hkeeps.trans hkeeps', hkeeps'.isSome _ hsome, fun _ hholds =>
          happended [] (hempty hholds)⟩

/-- Every place but the one where a file is made stays as it is. -/
theorem get?_store_of_ne {l : Location} (bytes : List UInt8) (h : fs.target text ≠ some l) :
    (fs.store text bytes).1.get? l = fs.get? l := by
  rcases store_cases fs text bytes with ⟨-, hsame, -⟩ | ⟨location, htarget, hkeeps, -, -⟩
  · rw [hsame]
  · exact hkeeps.get?_of_ne l fun hl => h (hl ▸ htarget)

theorem keeps_store (fs : FileSystem) (text : String) (bytes : List UInt8) :
    fs.Keeps (fs.store text bytes).1 := by
  rcases store_cases fs text bytes with ⟨-, hsame, -⟩ | ⟨location, -, hkeeps, -, -⟩
  · rw [hsame]
    exact .refl fs
  · exact hkeeps.toKeeps

/-- A file that was made is at its path and holds what was written to it. -/
theorem of_store_eq_none {bytes : List UInt8} (h : (fs.store text bytes).2 = none) :
    ∃ location, fs.target text = some location ∧ ((fs.store text bytes).1.get? location).isSome ∧
      (fs.HoldsFiles location → (fs.store text bytes).1.get? location = some (.file bytes)) := by
  rcases store_cases fs text bytes with ⟨-, -, hfailed⟩ | ⟨location, htarget, -, hsome, hholds⟩
  · exact absurd h hfailed
  · exact ⟨location, htarget, hsome, hholds h⟩

/-! ## Two files of nearly one name -/

variable {more : String}

/-- A path with more text behind it leads to another name in the same directory. -/
theorem leads_append {parent : Location} {name : String} (h : fs.Leads text parent name)
    (hslash : '/' ∉ more.toList) (hlength : 2 < more.length) {path : Path}
    (hparse : Path.parse (text ++ more) = .ok path) :
    fs.Leads (text ++ more) parent (name ++ more) := by
  obtain ⟨path₀, parents, hparse₀, hslash₀, hnames, hwalk⟩ := h.path
  obtain ⟨parents', name', hnames₀, hnames', hroot, hslash'⟩ :=
    Path.parse_append hparse₀ hslash₀ hslash hparse
  obtain ⟨rfl, hname⟩ := List.append_inj' (hnames.symm.trans hnames₀) rfl
  cases hname
  have hlong : 2 < (name ++ more).length := by
    rw [String.length_append]
    omega
  refine ⟨⟨path, parents, hparse, hslash', hnames', ?_⟩, h.directory, ?_, ?_⟩
  · rw [start, hroot]
    exact hwalk
  · intro heq
    rw [heq] at hlong
    exact absurd hlong (by decide)
  · intro heq
    rw [heq] at hlong
    exact absurd hlong (by decide)

/-- The place of a file depends on no other file. -/
theorem target_store (bytes : List UInt8) (h : fs.target text = some location)
    (hslash : '/' ∉ more.toList) (hlength : 2 < more.length) :
    (fs.store text bytes).1.target (text ++ more) = fs.target (text ++ more) ∧
      fs.target (text ++ more) ≠ some location := by
  obtain ⟨parent, name, hleads, -, -, rfl⟩ := exists_leads_of_target h
  cases hparse : Path.parse (text ++ more) with
  | error fault => simp [target, create, hparse, bind, Except.bind]
  | ok path =>
    have hmore := leads_append hleads hslash hlength hparse
    have hne : parent ++ [name ++ more] ≠ parent ++ [name] := by
      intro heq
      have hname := congrArg String.length (List.cons.inj (List.append_cancel_left heq)).1
      rw [String.length_append] at hname
      omega
    constructor
    · rw [target_of_leads hmore, target_of_leads (hmore.of_keeps (keeps_store fs text bytes)),
        get?_store_of_ne bytes]
      rw [h]
      exact fun heq => hne (Option.some.inj heq).symm
    · rw [target_of_leads hmore]
      split
      · exact fun heq => hne (Option.some.inj heq)
      · exact fun heq => by cases heq

end

end FileSystem

end PackedStack
