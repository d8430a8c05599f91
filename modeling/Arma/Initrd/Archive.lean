import Arma.Initrd.Materialize

/-!
# What an archive of modules has

The archive of a static executable and a list of modules is one that is accepted.
It has the directories on the way to the modules, each before what is in it and
with the count of its links, the console, the executable and a file for each
path, all with inode numbers of their own. The order of the list and repetitions
in it leave no trace, and without modules the archive is the one of the
executable.
-/

namespace Arma.Initrd.Archive

open Base.ByteString Base.Checked Base.Ordered Base.Paths Base.Text Kernel.Release
  Initrd.Newc Initrd.Materialize

/-- A path in a directory, `.` for the one at the top. -/
def Inside (d path : String) : Prop :=
  if d="." then path≠"." ∧ '/'∉path.toList else Child d path

/-- The directories of an archive, with their link counts. -/
structure Directories (release : String) (modules : List Module) (dirs : List (String×ℕ)) :
    Prop where
  /-- The top, `dev` and what is on the way to a module. -/
  mem : ∀ d, d∈dirs.map Prod.fst ↔ d="." ∨ d="dev" ∨
    ∃ m∈modules, ∃ path, archivePath release m=.ok path ∧ Ancestor d path
  /-- None is there twice. -/
  once : (dirs.map Prod.fst).Nodup
  /-- None stands behind a directory in it. -/
  parentsFirst : dirs.Pairwise fun a b => ¬Inside b.1 a.1
  /-- A directory has two links, and one from each directory in it. -/
  links : ∀ e∈dirs, ∃ inside : List String, inside.Nodup ∧
    (∀ s, s∈inside ↔ s∈dirs.map Prod.fst ∧ Inside e.1 s) ∧ e.2=2+inside.length

/-- The files of an archive, with their bytes. -/
structure Files (release : String) (modules : List Module) (files : List (String×Bytes)) :
    Prop where
  /-- Each module is at its path. -/
  mem : ∀ path bytes, (path,bytes)∈files ↔
    ∃ m∈modules, archivePath release m=.ok path ∧ m.bytes=bytes
  /-- No path is there twice. -/
  once : (files.map Prod.fst).Nodup

/-- A directory, without a number. -/
def dirNode (d : String×ℕ) : Node := ⟨0,dirMode,d.2,d.1,[],none⟩

/-- The console, without a number. -/
def consoleNode : Node := ⟨0,consoleMode,1,"dev/console",[],some (5,1)⟩

/-- The executable, without a number. -/
def initNode (input : Bytes) : Node := ⟨0,initMode,1,"init",input,none⟩

/-- A file, without a number. -/
def fileNode (f : String×Bytes) : Node := ⟨0,fileMode,1,f.1,f.2,none⟩

/-- Number records from `n` on. -/
def renumber : ℕ → List Node → List Node
  | _,[] => []
  | n,e::rest => {e with ino := n}::renumber (n+1) rest

/-- The records of an archive in order: directories, the console, the executable and
files. -/
def unnumbered (input : Bytes) (dirs : List (String×ℕ)) (files : List (String×Bytes)) :
    List Node :=
  dirs.map dirNode++[consoleNode,initNode input]++files.map fileNode

/-- The same with their inode numbers. -/
def nodesOf (input : Bytes) (dirs : List (String×ℕ)) (files : List (String×Bytes)) : List Node :=
  renumber 1 (unnumbered input dirs files)

/-- What the archive of a list of modules is like. -/
structure IsArchive (lib : InitrdLib) (input : Bytes) (release : String) (modules : List Module)
    (archive : Bytes) : Prop where
  /-- It is a whole archive. -/
  accepted : validateCpio archive=some ()
  /-- It has the directories, the console, the executable and the files, each once. -/
  contents : modules≠[] → ∃ dirs files, Directories release modules dirs ∧
    Files release modules files ∧
    unpack archive=some ((nodesOf input dirs files).map Node.record) ∧
    ((nodesOf input dirs files).map Node.ino).Nodup ∧
    ((nodesOf input dirs files).map Node.name).Nodup
  /-- Another list of the same modules has the same archive. -/
  unordered : ∀ modules', (∀ m, m∈modules' ↔ m∈modules) →
    materializeModules lib input release modules'=.ok archive
  /-- Without modules it is the one of the executable. -/
  plain : modules=[] → materialize lib input=.ok archive

/-- Entering a module puts its file in its directories; a file of the same path must
be the same. -/
theorem addModule_ok {release : String} {t t' : Tree} {m : Module} :
    addModule release t m=.ok t' ↔ ∃ path, archivePath release m=.ok path ∧
      (∀ bytes, t.files.get? path=some bytes → bytes=m.bytes) ∧
      t'=⟨t.directories.addAll (ancestors path),t.files.insert path m.bytes⟩ := by
  unfold addModule
  rw [bind_ok]
  refine exists_congr fun path => and_congr_right fun _ => ?_
  dsimp only
  split
  · rename_i previous hprevious
    rw [hprevious]
    split
    · rename_i hne
      exact iff_of_false fail_ne_ok fun h => hne (h.1 previous rfl)
    · rename_i heq
      rw [not_not] at heq
      rw [Except.ok.injEq]
      constructor
      · intro h
        refine ⟨fun bytes hbytes => ?_,h.symm⟩
        cases hbytes
        exact heq
      · exact fun h => h.2.symm
  · rename_i hnone
    rw [hnone,Except.ok.injEq]
    constructor
    · exact fun h => ⟨nofun,h.symm⟩
    · exact fun h => h.2.symm

/-- A tree that has the modules of a list besides what another has. -/
structure Entered (release : String) (t : Tree) (modules : List Module) (t' : Tree) : Prop where
  /-- Every module has a path. -/
  paths : ∀ m∈modules, ∃ path, archivePath release m=.ok path
  /-- The directories on the way to it are there. -/
  directories : ∀ d, d∈t'.directories.keys ↔
    (∃ m∈modules, ∃ path, archivePath release m=.ok path ∧ d∈ancestors path) ∨
      d∈t.directories.keys
  /-- It is the file at its path. -/
  files : ∀ path bytes, t'.files.get? path=some bytes ↔
    (∃ m∈modules, archivePath release m=.ok path ∧ m.bytes=bytes) ∨
      t.files.get? path=some bytes

/-- A tree is known by its directories and its files. -/
theorem tree_ext {t t' : Tree} (hdirs : ∀ d, d∈t.directories.keys ↔ d∈t'.directories.keys)
    (hfiles : ∀ path bytes, t.files.get? path=some bytes ↔ t'.files.get? path=some bytes) :
    t=t' := by
  have hd : t.directories=t'.directories := OrdSet.ext hdirs
  have hf : t.files=t'.files := OrdMap.ext_get? fun path => Option.ext (hfiles path)
  cases t
  cases t'
  cases hd
  cases hf
  rfl

/-- The first module is entered, then the others. -/
theorem entered_cons {release path : String} {m : Module} {modules : List Module} {t t' : Tree}
    (hpath : archivePath release m=.ok path)
    (hsame : ∀ bytes, t.files.get? path=some bytes → bytes=m.bytes) :
    Entered release t (m::modules) t' ↔ Entered release
      ⟨t.directories.addAll (ancestors path),t.files.insert path m.bytes⟩ modules t' := by
  have hhead : ∀ q, archivePath release m=.ok q ↔ q=path := fun q => by
    rw [hpath,Except.ok.injEq,eq_comm]
  have hdirs : ∀ d, ((∃ n∈m::modules, ∃ q, archivePath release n=.ok q ∧ d∈ancestors q) ∨
      d∈t.directories.keys) ↔ (∃ n∈modules, ∃ q, archivePath release n=.ok q ∧ d∈ancestors q) ∨
        d∈(t.directories.addAll (ancestors path)).keys := by
    intro d
    rw [OrdMap.mem_addAll,List.exists_mem_cons_iff]
    simp only [hhead,exists_eq_left]
    exact or_assoc.trans or_left_comm
  have hfiles : ∀ q bytes, ((∃ n∈m::modules, archivePath release n=.ok q ∧ n.bytes=bytes) ∨
      t.files.get? q=some bytes) ↔ (∃ n∈modules, archivePath release n=.ok q ∧ n.bytes=bytes) ∨
        (t.files.insert path m.bytes).get? q=some bytes := by
    intro q bytes
    rw [OrdMap.get?_insert,List.exists_mem_cons_iff,hhead]
    by_cases hq : path=q
    · subst hq
      rw [if_pos rfl,Option.some.injEq]
      constructor
      · rintro ((⟨_,hbytes⟩ | hrest) | hold)
        · exact .inr hbytes
        · exact .inl hrest
        · exact .inr (hsame bytes hold).symm
      · rintro (hrest | hbytes)
        · exact .inl (.inr hrest)
        · exact .inl (.inl ⟨rfl,hbytes⟩)
    · rw [if_neg hq]
      have hne : ¬(q=path ∧ m.bytes=bytes) := fun h => hq h.1.symm
      rw [or_iff_right hne]
  constructor
  · intro h
    exact ⟨fun n hn => h.paths n (List.mem_cons_of_mem _ hn),
      fun d => (h.directories d).trans (hdirs d),
      fun q bytes => (h.files q bytes).trans (hfiles q bytes)⟩
  · intro h
    refine ⟨fun n hn => ?_,fun d => (h.directories d).trans (hdirs d).symm,
      fun q bytes => (h.files q bytes).trans (hfiles q bytes).symm⟩
    obtain rfl | hn := List.mem_cons.mp hn
    · exact ⟨path,hpath⟩
    · exact h.paths n hn

/-- Modules are entered one by one. -/
theorem addModules_ok {release : String} {modules : List Module} {t t' : Tree} :
    modules.foldlM (addModule release) t=.ok t' ↔ Entered release t modules t' := by
  induction modules generalizing t with
  | nil =>
    constructor
    · intro h
      cases h
      exact ⟨by simp,by simp,by simp⟩
    · intro h
      have heq : t'=t := tree_ext (fun d => by simpa using h.directories d)
        (fun path bytes => by simpa using h.files path bytes)
      rw [heq]
      rfl
  | cons m modules ih =>
    rw [List.foldlM_cons,bind_ok]
    constructor
    · rintro ⟨t₁,hm,hrest⟩
      obtain ⟨path,hpath,hsame,rfl⟩ := addModule_ok.mp hm
      exact (entered_cons hpath hsame).mpr (ih.mp hrest)
    · intro h
      obtain ⟨path,hpath⟩ := h.paths m List.mem_cons_self
      have hsame : ∀ bytes, t.files.get? path=some bytes → bytes=m.bytes := by
        intro bytes hold
        have hthere := (h.files path bytes).mpr (.inr hold)
        have hnew := (h.files path m.bytes).mpr (.inl ⟨m,List.mem_cons_self,hpath,rfl⟩)
        exact Option.some.inj (hthere.symm.trans hnew)
      exact ⟨_,addModule_ok.mpr ⟨path,hpath,hsame,rfl⟩,ih.mpr ((entered_cons hpath hsame).mp h)⟩

/-- A list of the same modules makes the same tree. -/
theorem addModules_same {release : String} {modules modules' : List Module} {t t' : Tree}
    (hsame : ∀ m, m∈modules' ↔ m∈modules)
    (h : modules.foldlM (addModule release) t=.ok t') :
    modules'.foldlM (addModule release) t=.ok t' := by
  have hentered := addModules_ok.mp h
  refine addModules_ok.mpr ⟨fun m hm => hentered.paths m ((hsame m).mp hm),fun d => ?_,
    fun path bytes => ?_⟩
  · simp only [hsame]
    exact hentered.directories d
  · simp only [hsame]
    exact hentered.files path bytes

/-- Characters of joined names are a slash or of a name. -/
theorem mem_intercalate_slash {c : Char} {parts : List String}
    (h : c∈("/".intercalate parts).toList) : c = '/' ∨ ∃ part∈parts, c∈part.toList := by
  induction parts with
  | nil => simp at h
  | cons part parts ih =>
    by_cases hnil : parts=[]
    · rw [hnil,String.intercalate_singleton] at h
      exact .inr ⟨part,List.mem_cons_self,h⟩
    · rw [String.intercalate_cons_of_ne_nil hnil,String.toList_append,String.toList_append] at h
      obtain h | h := List.mem_append.mp h
      · obtain h | h := List.mem_append.mp h
        · exact .inr ⟨part,List.mem_cons_self,h⟩
        · exact .inl (List.mem_singleton.mp h)
      · obtain h | ⟨other,hother,h⟩ := ih h
        · exact .inl h
        · exact .inr ⟨other,List.mem_cons_of_mem _ hother,h⟩

/-- The path of a module in the archive is below `usr`, and no character of it is
zero. -/
theorem archivePath_ok {release path : String} {m : Module} (hrelease : ValidComponent release)
    (h : archivePath release m=.ok path) :
    path.toList.head?=some 'u' ∧ ∀ c∈path.toList, c.toNat≠0 := by
  unfold archivePath at h
  obtain ⟨parts,hparts,h⟩ := bind_ok.mp h
  split at h
  · exact absurd h fail_ne_ok
  · cases h
    have hpart : ∀ part∈parts, PartOk part := by
      intro part hmem
      obtain ⟨component,_,hok⟩ := forall₂_mem (List.Forall₂.flip (mapM_ok.mp hparts)) hmem
      cases component with
      | normal name =>
        have hsome := okOr_ok.mp hok
        exact of_decide_eq_true (Option.filter_eq_some_iff.mp hsome).2
      | rootDir => exact absurd hok fail_ne_ok
      | curDir => exact absurd hok fail_ne_ok
      | parentDir => exact absurd hok fail_ne_ok
    simp only [String.toList_append]
    refine ⟨rfl,fun c hc => ?_⟩
    obtain hc | hc := List.mem_append.mp hc
    · obtain hc | hc := List.mem_append.mp hc
      · obtain hc | hc := List.mem_append.mp hc
        · have hfixed : ∀ c∈"usr/lib/modules/".toList, c.toNat≠0 := by decide
          exact hfixed c hc
        · have hchar := hrelease.2.2.2.2 c hc
          simp only [isComponentChar,Bool.and_eq_true,decide_eq_true_eq] at hchar
          omega
      · have hfixed : ∀ c∈"/".toList, c.toNat≠0 := by decide
        exact hfixed c hc
    · obtain rfl | ⟨part,hmem,hc⟩ := mem_intercalate_slash hc
      · decide
      · have hchar := (hpart part hmem).2 c hc
        simp only [isControl,decide_eq_false_iff_not] at hchar
        omega

/-- The directories that count for `d`. -/
def below (d : String) (l : List String) : List String :=
  l.filter fun s => decide (s≠"." ∧ up s=d)

/-- Counting one directory. -/
theorem countLink_ok {links links' : OrdMap String ℕ} {s : String}
    (h : countLink links s=.ok links') (hlt : ∀ d, (links.get? d).getD 2<2^32) :
    (∀ d, (links'.get? d).getD 2=(links.get? d).getD 2+(below d [s]).length) ∧
      ∀ d, (links'.get? d).getD 2<2^32 := by
  unfold countLink at h
  split at h
  · rename_i hdot
    cases h
    refine ⟨fun d => ?_,hlt⟩
    simp [below,hdot]
  · rename_i hdot
    obtain ⟨count,hcount,h⟩ := bind_ok.mp h
    cases h
    obtain ⟨hsum,hfits⟩ := addWord_some.mp (okOr_ok.mp hcount)
    constructor
    · intro d
      rw [OrdMap.get?_insert]
      by_cases hup : up s=d
      · have hone : (below d [s]).length=1 := by simp [below,hdot,hup]
        have hsum' : (links.get? d).getD 2+1=count := hup ▸ hsum
        rw [if_pos hup,hone,hsum']
        rfl
      · have hzero : (below d [s]).length=0 := by simp [below,hup]
        rw [if_neg hup,hzero,Nat.add_zero]
    · intro d
      rw [OrdMap.get?_insert]
      by_cases hup : up s=d
      · rw [if_pos hup]
        exact hfits
      · rw [if_neg hup]
        exact hlt d

/-- Counting the directories of a list. -/
theorem countLinks_ok {l : List String} {links links' : OrdMap String ℕ}
    (h : l.foldlM countLink links=.ok links') (hlt : ∀ d, (links.get? d).getD 2<2^32) :
    (∀ d, (links'.get? d).getD 2=(links.get? d).getD 2+(below d l).length) ∧
      ∀ d, (links'.get? d).getD 2<2^32 := by
  induction l generalizing links with
  | nil =>
    cases h
    exact ⟨fun d => rfl,hlt⟩
  | cons s l ih =>
    rw [List.foldlM_cons] at h
    obtain ⟨links₁,hs,h⟩ := bind_ok.mp h
    obtain ⟨hcount,hlt₁⟩ := countLink_ok hs hlt
    obtain ⟨hrest,hlt'⟩ := ih h hlt₁
    refine ⟨fun d => ?_,hlt'⟩
    have hsplit : below d (s::l)=below d [s]++below d l := by
      rw [below,below,below,←List.filter_append,List.singleton_append]
    rw [hrest,hcount,hsplit,List.length_append,Nat.add_assoc]

/-- Write records under the next inode numbers. -/
def writeNodes (st : Bytes×ℕ) (nodes : List Node) : Outcome InitrdError (Bytes×ℕ) :=
  nodes.foldlM (fun st e => numbered st e.mode e.nlink e.name e.data e.rdev) st

/-- The sizes that a record can hold. -/
def SizesFit (e : Node) : Prop := e.name.utf8ByteSize+1<2^32 ∧ e.data.length<2^32

/-- A size that was checked is that of the padded header and name and the padded data, from the
offset on. -/
theorem checkedEntrySize_some {offset nameLen size n : ℕ}
    (h : checkedEntrySize offset nameLen size=some n) : nameLen+1<2^32 ∧ size<2^32 ∧
      offset+n=((offset+110+(nameLen+1)+3)/4*4+size+3)/4*4 := by
  unfold checkedEntrySize at h
  simp only [Option.bind_eq_bind,Option.bind_eq_some_iff] at h
  obtain ⟨namesize,hname,_,hguard,nameStart,hstart,nameEnd,hend,dataStart,hdata,dataEnd,hdataEnd,
    stop,hstop,h⟩ := h
  obtain ⟨rfl,-⟩ := addWord_some.mp hname
  obtain ⟨hnameFits,hsizeFits⟩ := of_guard hguard
  obtain ⟨rfl,-⟩ := addWord_some.mp hstart
  obtain ⟨rfl,-⟩ := addWord_some.mp hend
  obtain rfl := align4_some hdata
  obtain ⟨rfl,-⟩ := addWord_some.mp hdataEnd
  obtain rfl := align4_some hstop
  obtain ⟨hle,rfl⟩ := subWord_some.mp h
  exact ⟨hnameFits,hsizeFits,Nat.add_sub_of_le hle⟩

/-- A checked entry is written. -/
theorem checkedEntry_ok {out out' : Bytes} {e : Node} (h : checkedEntry out e=.ok out') :
    out'=cpioEntry out e ∧ SizesFit e := by
  unfold checkedEntry at h
  obtain ⟨additional,hsize,h⟩ := bind_ok.mp h
  split at h
  · cases h
    obtain ⟨hname,hdata,-⟩ := checkedEntrySize_some (okOr_ok.mp hsize)
    exact ⟨rfl,hname,hdata⟩
  · exact absurd h fail_ne_ok

/-- Records are written behind each other, with numbers from the next one on. -/
theorem writeNodes_ok {nodes : List Node} {out : Bytes} {n : ℕ} {st : Bytes×ℕ}
    (h : writeNodes (out,n) nodes=.ok st) (hout : out.length%4=0) :
    st.1=out++(renumber (n+1) nodes).flatMap entryBytes ∧ st.1.length%4=0 ∧
      ∀ e∈renumber (n+1) nodes, SizesFit e ∧ e.ino<2^32 := by
  induction nodes generalizing out n with
  | nil =>
    cases h
    exact ⟨by simp [renumber],hout,by simp [renumber]⟩
  | cons e nodes ih =>
    rw [writeNodes,List.foldlM_cons] at h
    obtain ⟨st₁,hfirst,h⟩ := bind_ok.mp h
    obtain ⟨ino,hino,hfirst⟩ := bind_ok.mp hfirst
    obtain ⟨rfl,hlt⟩ := addWord_some.mp (okOr_ok.mp hino)
    obtain ⟨out₁,hentry,hfirst⟩ := bind_ok.mp hfirst
    cases hfirst
    obtain ⟨rfl,hfits⟩ := checkedEntry_ok hentry
    have hwritten := cpioEntry_eq hout {e with ino := n+1}
    have hwords : (cpioEntry out {e with ino := n+1}).length%4=0 := by
      have hmod := entryBytes_mod {e with ino := n+1}
      rw [hwritten,List.length_append]
      omega
    obtain ⟨hst,hwhole,hall⟩ := ih h hwords
    refine ⟨?_,hwhole,?_⟩
    · rw [hst,renumber,List.flatMap_cons,←List.append_assoc,hwritten]
    · rw [renumber,List.forall_mem_cons]
      exact ⟨⟨hfits,hlt⟩,hall⟩

/-- Records are numbered in order. -/
theorem renumber_ino (n : ℕ) (nodes : List Node) :
    (renumber n nodes).map Node.ino=List.range' n nodes.length := by
  induction nodes generalizing n with
  | nil => rfl
  | cons e nodes ih => rw [renumber,List.map_cons,ih,List.length_cons,List.range'_succ]

/-- Numbering keeps the names. -/
theorem renumber_name (n : ℕ) (nodes : List Node) :
    (renumber n nodes).map Node.name=nodes.map Node.name := by
  induction nodes generalizing n with
  | nil => rfl
  | cons e nodes ih => rw [renumber,List.map_cons,ih,List.map_cons]

/-- Numbering changes nothing but the numbers. -/
theorem mem_renumber {n : ℕ} {nodes : List Node} {e : Node} (h : e∈renumber n nodes) :
    ∃ e₀∈nodes, e={e₀ with ino := e.ino} := by
  induction nodes generalizing n with
  | nil => cases h
  | cons e₁ nodes ih =>
    obtain rfl | h := List.mem_cons.mp h
    · exact ⟨e₁,List.mem_cons_self,rfl⟩
    · obtain ⟨e₀,he₀,heq⟩ := ih h
      exact ⟨e₀,List.mem_cons_of_mem _ he₀,heq⟩

/-- The directories of a tree with the links that are counted. -/
def dirsOf (t : Tree) : List (String×ℕ) :=
  t.directories.keys.map fun d => (d,2+(below d t.directories.keys).length)

/-- The directories of a tree are its keys. -/
theorem dirsOf_names (t : Tree) : (dirsOf t).map Prod.fst=t.directories.keys := by
  rw [dirsOf,List.map_map]
  exact List.map_id _

/-- The archive of a tree is the sequence of its records. -/
theorem writeTree_ok {input archive : Bytes} {t : Tree} (h : writeTree input t=.ok archive) :
    archive=(nodesOf input (dirsOf t) t.files.entries).flatMap entryBytes++entryBytes trailer ∧
      (∀ e∈nodesOf input (dirsOf t) t.files.entries, SizesFit e ∧ e.ino<2^32) ∧
      ∀ e∈dirsOf t, e.2<2^32 := by
  unfold writeTree at h
  obtain ⟨links,hlinks,h⟩ := bind_ok.mp h
  obtain ⟨st₁,hdirs,h⟩ := bind_ok.mp h
  obtain ⟨st₂,hconsole,h⟩ := bind_ok.mp h
  obtain ⟨st₃,hinit,h⟩ := bind_ok.mp h
  obtain ⟨st,hfiles,h⟩ := bind_ok.mp h
  obtain ⟨hcounts,hbound⟩ := countLinks_ok hlinks (fun d => by
    rw [OrdMap.get?_empty]
    decide)
  have hcount : ∀ d, (links.get? d).getD 2=2+(below d t.directories.keys).length := fun d => by
    rw [hcounts d,OrdMap.get?_empty]
    rfl
  have hrun : writeNodes ([],0) (unnumbered input (dirsOf t) t.files.entries)=.ok st := by
    simp only [hcount] at hdirs
    have hdirs' : writeNodes ([],0) ((dirsOf t).map dirNode)=.ok st₁ := by
      rw [writeNodes,dirsOf,List.map_map,List.foldlM_map]
      exact hdirs
    have hfixed : writeNodes st₁ [consoleNode,initNode input]=.ok st₃ := by
      rw [writeNodes,List.foldlM_cons]
      refine bind_ok.mpr ⟨st₂,hconsole,?_⟩
      rw [List.foldlM_cons]
      exact bind_ok.mpr ⟨st₃,hinit,rfl⟩
    have hfiles' : writeNodes st₃ (t.files.entries.map fileNode)=.ok st := by
      rw [writeNodes,List.foldlM_map]
      exact hfiles
    rw [unnumbered,writeNodes,List.foldlM_append,List.foldlM_append]
    exact bind_ok.mpr ⟨st₃,bind_ok.mpr ⟨st₁,hdirs',hfixed⟩,hfiles'⟩
  obtain ⟨hbytes,hwords,hall⟩ := writeNodes_ok hrun rfl
  obtain ⟨harchive,_⟩ := checkedEntry_ok h
  refine ⟨?_,hall,?_⟩
  · rw [harchive,cpioEntry_eq hwords,hbytes]
    rfl
  · intro e he
    obtain ⟨d,_,rfl⟩ := List.mem_map.mp he
    exact (hcount d).symm ▸ hbound d

/-- Where a path of an archive begins: at the top, at `dev` or in `usr`. -/
def Rooted (s : String) : Prop := s="." ∨ s="dev" ∨ s.toList.head?=some 'u'

/-- A rooted path comes behind the top. -/
theorem Rooted.dot_lt {s : String} (h : Rooted s) (hdot : s≠".") : "."<s := by
  obtain rfl | rfl | h := h
  · exact absurd rfl hdot
  · decide
  · rw [String.lt_iff_toList_lt]
    cases hs : s.toList with
    | nil =>
      rw [hs] at h
      cases h
    | cons c cs =>
      rw [hs] at h
      cases h
      exact List.cons_lt_cons_iff.mpr (.inl (by decide))

/-- A rooted directory counts for the one it is in. -/
theorem Rooted.up_iff {d s : String} (h : Rooted s) : s≠"." ∧ up s=d ↔ Inside d s := by
  unfold Inside up
  by_cases hdot : s="."
  · subst hdot
    refine iff_of_false (fun h => h.1 rfl) ?_
    split
    · exact fun h => h.1 rfl
    · rintro ⟨name,_,hpath⟩
      have hmem : '/'∈".".toList := by rw [hpath]; simp
      revert hmem
      decide
  · cases hp : parent s with
    | none =>
      have hnone := parent_none.mp hp
      split
      · rename_i hd
        subst hd
        exact iff_of_true ⟨hdot,rfl⟩ ⟨hdot,hnone⟩
      · rename_i hd
        refine iff_of_false (fun h => hd h.2.symm) ?_
        rintro ⟨name,_,hpath⟩
        exact hnone (by rw [hpath]; simp)
    | some p =>
      have hchild := parent_some.mp hp
      have hslash : '/'∈s.toList := by
        obtain ⟨name,_,hpath⟩ := hchild
        rw [hpath]
        simp
      have hne : p≠"." := by
        rintro rfl
        obtain ⟨name,_,hpath⟩ := hchild
        have hhead : s.toList.head?=some '.' := by rw [hpath]; rfl
        obtain rfl | rfl | hu := h
        · exact hdot rfl
        · revert hhead
          decide
        · rw [hhead] at hu
          cases hu
      split
      · rename_i hd
        subst hd
        exact iff_of_false (fun h => hne h.2) fun h => h.2 hslash
      · rw [←parent_some,hp,Option.some.injEq]
        exact and_iff_right hdot

/-- The tree of a list of modules. -/
abbrev Entering (release : String) (modules : List Module) (t : Tree) : Prop :=
  Entered release ⟨.ofList [".","dev"],.empty⟩ modules t

/-- The directories of the tree of a list of modules. -/
theorem Entered.mem_directories {release : String} {modules : List Module} {t : Tree}
    (h : Entering release modules t) (hrelease : ValidComponent release) (d : String) :
    d∈t.directories.keys ↔ d="." ∨ d="dev" ∨
      ∃ m∈modules, ∃ path, archivePath release m=.ok path ∧ Ancestor d path := by
  have hways : (∃ m∈modules, ∃ path, archivePath release m=.ok path ∧ d∈ancestors path) ↔
      ∃ m∈modules, ∃ path, archivePath release m=.ok path ∧ Ancestor d path := by
    refine exists_congr fun m => and_congr_right fun _ => exists_congr fun path =>
      and_congr_right fun hpath => ?_
    rw [mem_ancestors]
    refine and_iff_right_of_imp fun hway => ?_
    have hhead := hway.head (archivePath_ok hrelease hpath).1 (by decide)
    rintro rfl
    cases hhead
  rw [h.directories,hways,OrdSet.mem_ofList,List.mem_cons,List.mem_singleton]
  exact or_comm.trans or_assoc

/-- They are rooted. -/
theorem Entered.rooted {release : String} {modules : List Module} {t : Tree}
    (h : Entering release modules t) (hrelease : ValidComponent release) {d : String}
    (hd : d∈t.directories.keys) : Rooted d := by
  obtain hdot | hdev | ⟨m,_,path,hpath,hway⟩ := (h.mem_directories hrelease d).mp hd
  · exact .inl hdot
  · exact .inr (.inl hdev)
  · exact .inr (.inr (hway.head (archivePath_ok hrelease hpath).1 (by decide)))

/-- No character of them is zero. -/
theorem Entered.directory_chars {release : String} {modules : List Module} {t : Tree}
    (h : Entering release modules t) (hrelease : ValidComponent release) {d : String}
    (hd : d∈t.directories.keys) : ∀ c∈d.toList, c.toNat≠0 := by
  obtain rfl | rfl | ⟨m,_,path,hpath,rest,hway⟩ := (h.mem_directories hrelease d).mp hd
  · decide
  · decide
  · intro c hc
    refine (archivePath_ok hrelease hpath).2 c ?_
    rw [hway]
    exact List.mem_append_left _ hc

/-- The directories of a tree are as described. -/
theorem Entered.described {release : String} {modules : List Module} {t : Tree}
    (h : Entering release modules t) (hrelease : ValidComponent release) :
    Directories release modules (dirsOf t) := by
  have hnames := dirsOf_names t
  refine ⟨fun d => ?_,?_,?_,fun e he => ?_⟩
  · rw [hnames]
    exact h.mem_directories hrelease d
  · rw [hnames]
    exact t.directories.keys_nodup
  · refine List.pairwise_map.mpr (t.directories.keys_sorted.imp_of_mem ?_)
    intro a b ha hb hlt hinside
    have hup : b<a := by
      unfold Inside at hinside
      split at hinside
      · rename_i hdot
        have hb : b="." := hdot
        rw [hb]
        exact (h.rooted hrelease ha).dot_lt hinside.1
      · exact hinside.ancestor.lt
    exact lt_asymm hlt hup
  · obtain ⟨d,_,rfl⟩ := List.mem_map.mp he
    refine ⟨below d t.directories.keys,t.directories.keys_nodup.filter _,fun s => ?_,rfl⟩
    rw [hnames,below,List.mem_filter,decide_eq_true_eq]
    exact and_congr_right fun hs => (h.rooted hrelease hs).up_iff

/-- The files of a tree are as described. -/
theorem Entered.described_files {release : String} {modules : List Module} {t : Tree}
    (h : Entering release modules t) : Files release modules t.files.entries := by
  refine ⟨fun path bytes => ?_,t.files.keys_nodup⟩
  rw [OrdMap.mem_entries,h.files]
  exact or_iff_left (by simp)

/-- A path that an archive can have: it is rooted and no character of it is zero. -/
def NameOk (s : String) : Prop := Rooted s ∧ ∀ c∈s.toList, c.toNat≠0

/-- The names of the records. -/
theorem unnumbered_names (input : Bytes) (dirs : List (String×ℕ)) (files : List (String×Bytes)) :
    (unnumbered input dirs files).map Node.name=
      dirs.map Prod.fst++["dev/console","init"]++files.map Prod.fst := by
  simp only [unnumbered,List.map_append,List.map_map]
  rfl

/-- What a record needs besides its sizes and its number. -/
structure Describable (e : Node) : Prop where
  /-- Type and permissions are of 32 bits. -/
  mode : e.mode<2^32
  /-- So is the link count. -/
  nlink : e.nlink<2^32
  /-- So is the major number. -/
  major : (e.rdev.getD (0,0)).1<2^32
  /-- So is the minor number. -/
  minor : (e.rdev.getD (0,0)).2<2^32
  /-- The name has no zero character. -/
  name : ∀ c∈e.name.toList, c.toNat≠0
  /-- It is not the one of a trailer. -/
  other : e.name≠trailerName

/-- A record of such parts fits. -/
theorem Describable.fits {e : Node} (h : Describable e) (hino : e.ino<2^32)
    (hsizes : SizesFit e) : e.Fits := by
  have hzero : 0<2^32 := by decide
  refine ⟨?_,h.name⟩
  simp only [Node.fields,List.forall_mem_cons]
  exact ⟨hino,h.mode,hzero,hzero,h.nlink,hzero,hsizes.2,hzero,hzero,h.major,h.minor,hsizes.1,
    hzero,fun _ hmem => absurd hmem List.not_mem_nil⟩

/-- No rooted path is the name of a trailer. -/
theorem Rooted.other {s : String} (h : Rooted s) : s≠trailerName := by
  rintro rfl
  have hnot : ¬(trailerName="." ∨ trailerName="dev" ∨ trailerName.toList.head?=some 'u') := by
    decide
  exact hnot h

/-- The records of an archive can be described. -/
theorem unnumbered_describable {input : Bytes} {dirs : List (String×ℕ)}
    {files : List (String×Bytes)} (hdirs : ∀ d∈dirs, NameOk d.1 ∧ d.2<2^32)
    (hfiles : ∀ f∈files, NameOk f.1) : ∀ e∈unnumbered input dirs files, Describable e := by
  have hzero : 0<2^32 := by decide
  have hone : 1<2^32 := by decide
  have hdir : dirMode<2^32 := by decide
  have hinit : initMode<2^32 := by decide
  have hfile : fileMode<2^32 := by decide
  intro e he
  obtain he | he := List.mem_append.mp he
  · obtain he | he := List.mem_append.mp he
    · obtain ⟨d,hd,rfl⟩ := List.mem_map.mp he
      obtain ⟨⟨hrooted,hchars⟩,hlt⟩ := hdirs d hd
      exact ⟨hdir,hlt,hzero,hzero,hchars,hrooted.other⟩
    · obtain rfl | he := List.mem_cons.mp he
      · exact ⟨by decide,by decide,by decide,by decide,by decide,by decide⟩
      · obtain rfl := List.mem_singleton.mp he
        have hchars : ∀ c∈"init".toList, c.toNat≠0 := by decide
        have hother : "init"≠trailerName := by decide
        exact ⟨hinit,hone,hzero,hzero,hchars,hother⟩
  · obtain ⟨f,hf,rfl⟩ := List.mem_map.mp he
    obtain ⟨hrooted,hchars⟩ := hfiles f hf
    exact ⟨hfile,hone,hzero,hzero,hchars,hrooted.other⟩

/-- An archive of such records unpacks to them. -/
theorem unpack_nodes {input : Bytes} {dirs : List (String×ℕ)} {files : List (String×Bytes)}
    (hdirs : ∀ d∈dirs, NameOk d.1 ∧ d.2<2^32) (hfiles : ∀ f∈files, NameOk f.1)
    (hsizes : ∀ e∈nodesOf input dirs files, SizesFit e ∧ e.ino<2^32) :
    unpack ((nodesOf input dirs files).flatMap entryBytes++entryBytes trailer)=
      some ((nodesOf input dirs files).map Node.record) := by
  have hdescribable : ∀ e∈nodesOf input dirs files, Describable e := by
    intro e he
    obtain ⟨e₀,he₀,heq⟩ := mem_renumber he
    have h₀ := unnumbered_describable hdirs hfiles e₀ he₀
    rw [heq]
    exact ⟨h₀.mode,h₀.nlink,h₀.major,h₀.minor,h₀.name,h₀.other⟩
  refine unpack_entries (fun e he => ?_) fun e he => (hdescribable e he).other
  obtain ⟨hsize,hino⟩ := hsizes e he
  exact (hdescribable e he).fits hino hsize

/-- The archive of an executable alone. -/
theorem wrapAsCpio_eq (input : Bytes) : wrapAsCpio input=
    (nodesOf input [(".",3),("dev",2)] []).flatMap entryBytes++entryBytes trailer := by
  have hstep : ∀ (nodes : List Node) (e : Node), cpioEntry (nodes.flatMap entryBytes) e=
      (nodes++[e]).flatMap entryBytes := by
    intro nodes e
    have hwords : (nodes.flatMap entryBytes).length%4=0 := by
      induction nodes with
      | nil => rfl
      | cons e nodes ih =>
        have hmod := entryBytes_mod e
        rw [List.flatMap_cons,List.length_append]
        omega
    rw [cpioEntry_eq hwords,List.flatMap_append,List.flatMap_singleton]
  have hlast := hstep (nodesOf input [(".",3),("dev",2)] []) trailer
  rw [List.flatMap_append,List.flatMap_singleton] at hlast
  rw [←hlast]
  unfold wrapAsCpio
  dsimp only
  have hnil : ([] : Bytes)=([] : List Node).flatMap entryBytes := rfl
  rw [hnil,hstep,hstep,hstep,hstep]
  rfl

/-- An executable is neither an archive nor a compressed one. -/
theorem materialize_elf {lib : InitrdLib} {input : Bytes} (helf : isElf input=true)
    (hstatic : checkStaticElf lib input=.ok ()) (hsize : input.length<2^32) :
    materialize lib input=.ok (wrapAsCpio input) := by
  obtain ⟨rest,rfl⟩ := List.isPrefixOf_iff_prefix.mp helf
  have hcpio : isCpio (Kernel.Image.elfMagic++rest)=false := rfl
  have hgzip : ([0x1f,0x8b] : Bytes).isPrefixOf (Kernel.Image.elfMagic++rest)=false := rfl
  have hzstd : ([0x28,0xb5,0x2f,0xfd] : Bytes).isPrefixOf (Kernel.Image.elfMagic++rest)=false :=
    rfl
  unfold materialize
  rw [hcpio,hgzip,hzstd,if_neg (by decide),if_neg (by decide),if_neg (by decide),if_pos helf,
    hstatic]
  exact if_neg (by omega)

/-- The files of a tree are below `usr`. -/
theorem Entered.file_path {release : String} {modules : List Module} {t : Tree}
    (h : Entering release modules t) (hrelease : ValidComponent release) {f : String×Bytes}
    (hf : f∈t.files.entries) : f.1.toList.head?=some 'u' ∧ ∀ c∈f.1.toList, c.toNat≠0 := by
  obtain ⟨m,_,hpath,_⟩ := (h.described_files.mem f.1 f.2).mp hf
  exact archivePath_ok hrelease hpath

/-- No name is in the archive twice. -/
theorem Entered.names_nodup {release : String} {modules : List Module} {t : Tree}
    (h : Entering release modules t) (hrelease : ValidComponent release) (input : Bytes)
    (hapart : ∀ f∈t.files.keys, f∉t.directories.keys) :
    ((nodesOf input (dirsOf t) t.files.entries).map Node.name).Nodup := by
  have hfile : ∀ f∈t.files.keys, f.toList.head?=some 'u' := by
    intro f hf
    obtain ⟨e,he,rfl⟩ := List.mem_map.mp hf
    exact (h.file_path hrelease he).1
  have hfixed : ∀ s∈["dev/console","init"], ¬Rooted s := by
    have hall : ∀ s∈["dev/console","init"], ¬(s="." ∨ s="dev" ∨ s.toList.head?=some 'u') := by
      decide
    exact hall
  rw [nodesOf,renumber_name,unnumbered_names,dirsOf_names]
  refine List.nodup_append'.mpr ⟨List.nodup_append'.mpr ⟨t.directories.keys_nodup,by decide,?_⟩,
    t.files.keys_nodup,?_⟩
  · intro s hs hother
    exact hfixed s hother (h.rooted hrelease hs)
  · intro s hs hf
    obtain hs | hs := List.mem_append.mp hs
    · exact hapart s hf hs
    · exact hfixed s hs (.inr (.inr (hfile s hf)))

/-- The sizes of the executable in an archive without modules. -/
theorem plain_fits {input : Bytes} (hsize : input.length<2^32) :
    ∀ e∈nodesOf input [(".",3),("dev",2)] [], SizesFit e ∧ e.ino<2^32 := by
  have hnodes : nodesOf input [(".",3),("dev",2)] []=
      [⟨1,dirMode,3,".",[],none⟩,⟨2,dirMode,2,"dev",[],none⟩,
        ⟨3,consoleMode,1,"dev/console",[],some (5,1)⟩,⟨4,initMode,1,"init",input,none⟩] := rfl
  rw [hnodes]
  simp only [List.forall_mem_cons,SizesFit]
  exact ⟨by decide,by decide,by decide,⟨⟨by decide,hsize⟩,by decide⟩,nofun⟩

/-- The directories of an archive without modules. -/
theorem plain_dirs : ∀ d∈[(".",3),("dev",2)], NameOk d.1 ∧ d.2<2^32 := by
  have hdot : NameOk "." := ⟨.inl rfl,by decide⟩
  have hdev : NameOk "dev" := ⟨.inr (.inl rfl),by decide⟩
  simp only [List.forall_mem_cons]
  exact ⟨⟨hdot,by decide⟩,⟨hdev,by decide⟩,nofun⟩

/-- Without modules the archive is the packed init. -/
theorem materializeModules_none {lib : InitrdLib} {input archive : Bytes} {release : String}
    (h : materializeModules lib input release []=.ok archive) :
    IsArchive lib input release [] archive := by
  have hrun := h
  unfold materializeModules at h
  have ⟨_,hinit,h⟩ := bind_ok.mp h
  have ⟨size,hsize,h⟩ := bind_ok.mp h
  have hsmall : input.length<2^32 := (checkedEntrySize_some (okOr_ok.mp hsize)).2.1
  rw [if_pos rfl] at h
  unfold checkModuleInit at hinit
  split at hinit
  · rename_i helf
    have hplain := materialize_elf helf hinit hsmall
    have harchive : archive=wrapAsCpio input := Except.ok.inj (h.symm.trans hplain)
    have hnone : ∀ f∈([] : List (String×Bytes)), NameOk f.1 := nofun
    have hunpack := unpack_nodes plain_dirs hnone (plain_fits hsmall)
    rw [←wrapAsCpio_eq,←harchive] at hunpack
    refine ⟨(validateCpio_iff archive).mpr ⟨_,hunpack⟩,fun hne => absurd rfl hne,
      fun modules' hsame => ?_,fun _ => h⟩
    have hnil : modules'=[] := by
      refine List.eq_nil_iff_forall_not_mem.mpr fun m hm => ?_
      cases (hsame m).mp hm
    rw [hnil]
    exact hrun
  · exact absurd hinit fail_ne_ok

/-- With modules the archive has their files, and the directories on the way. -/
theorem materializeModules_some {lib : InitrdLib} {input archive : Bytes} {release : String}
    {modules : List Module} (hne : modules≠[])
    (h : materializeModules lib input release modules=.ok archive) :
    IsArchive lib input release modules archive := by
  unfold materializeModules at h
  have ⟨_,hinit,h⟩ := bind_ok.mp h
  have ⟨size,hsize,h⟩ := bind_ok.mp h
  rw [if_neg hne] at h
  have ⟨_,hvalid,h⟩ := bind_ok.mp h
  have ⟨t,ht,h⟩ := bind_ok.mp h
  have hrelease := validateComponent_ok.mp (context_ok.mp hvalid)
  have hentered : Entering release modules t := addModules_ok.mp ht
  split at h
  · exact absurd h fail_ne_ok
  · rename_i hcollision
    have hapart : ∀ f∈t.files.keys, f∉t.directories.keys := fun f hf hd =>
      hcollision (List.any_eq_true.mpr ⟨f,hf,OrdMap.contains_iff.mpr hd⟩)
    have ⟨harchive,hsizes,hlinks⟩ := writeTree_ok h
    have hdirs : ∀ d∈dirsOf t, NameOk d.1 ∧ d.2<2^32 := by
      intro d hd
      have hkey : d.1∈t.directories.keys := by
        rw [←dirsOf_names]
        exact List.mem_map_of_mem hd
      exact ⟨⟨hentered.rooted hrelease hkey,hentered.directory_chars hrelease hkey⟩,hlinks d hd⟩
    have hfiles : ∀ f∈t.files.entries, NameOk f.1 := by
      intro f hf
      have ⟨hhead,hchars⟩ := hentered.file_path hrelease hf
      exact ⟨.inr (.inr hhead),hchars⟩
    have hunpack := unpack_nodes hdirs hfiles hsizes
    rw [←harchive] at hunpack
    refine ⟨(validateCpio_iff archive).mpr ⟨_,hunpack⟩,fun _ => ⟨dirsOf t,t.files.entries,
      hentered.described hrelease,hentered.described_files,hunpack,?_,
      hentered.names_nodup hrelease input hapart⟩,fun modules' hsame => ?_,
      fun heq => absurd heq hne⟩
    · rw [nodesOf,renumber_ino]
      exact List.nodup_range'
    · have hne' : modules'≠[] := by
        have ⟨m,hm⟩ := List.exists_mem_of_ne_nil modules hne
        exact List.ne_nil_of_mem ((hsame m).mpr hm)
      -- every step but the last reads the modules as a set
      unfold materializeModules
      refine bind_ok.mpr ⟨(),hinit,bind_ok.mpr ⟨size,hsize,?_⟩⟩
      rw [if_neg hne']
      refine bind_ok.mpr ⟨(),hvalid,bind_ok.mpr ⟨t,addModules_same hsame ht,?_⟩⟩
      rw [if_neg hcollision]
      exact h

/-- The archive of an executable and its modules: it is accepted, unpacks to the
directories on the way, the console, the executable and each module at its path,
depends on the modules alone, and without modules is the plain one. -/
theorem materializeModules_archive {lib : InitrdLib} {input archive : Bytes} {release : String}
    {modules : List Module} (h : materializeModules lib input release modules=.ok archive) :
    IsArchive lib input release modules archive := by
  by_cases hnil : modules=[]
  · subst hnil
    exact materializeModules_none h
  · exact materializeModules_some hnil h

/-- Libraries that take every file with the magic for a static executable. -/
def plainInitrdLib : InitrdLib where
  elfParse := fun bytes =>
    if isElf bytes=true then some ⟨true,62,0,0,0,0,[],[],[],[]⟩ else none
  interpreter := fun _ => none
  gunzip := fun _ => .error "invalid gzip header"
  unzstd := fun _ => .error "invalid magic number"

/-- Two modules, one of them listed twice. -/
def sampleModules : List Module :=
  [⟨ascii "kernel/net/a.ko",[1,2,3]⟩,⟨ascii "kernel/b.ko",[4]⟩,⟨ascii "kernel/net/a.ko",[1,2,3]⟩]

/-- They have an archive. -/
theorem materializeModules_archive_sample : ∃ archive,
    materializeModules plainInitrdLib [0x7f,0x45,0x4c,0x46,1] "6.1.0" sampleModules=.ok archive ∧
      IsArchive plainInitrdLib [0x7f,0x45,0x4c,0x46,1] "6.1.0" sampleModules archive := by
  obtain ⟨archive,h⟩ := exists_ok (x := materializeModules plainInitrdLib [0x7f,0x45,0x4c,0x46,1]
    "6.1.0" sampleModules) (by decide +kernel)
  exact ⟨archive,h,materializeModules_archive h⟩

end Arma.Initrd.Archive
