import Arma.Build.Inputs
import Arma.Tatu.ArmHandover

/-!
# Editing the command line of a devicetree

`arma cmdline` reads `/chosen/bootargs` in a devicetree file or puts another line there. The
file behaves like one register: a read prints the line of the last write that has succeeded, and
nothing else of the tree changes, however many commands are run.
-/

namespace Arma.Cmdline

open Base.ByteString Base.Checked Base.Effects BaseDtb Build.Inputs Devtree Devtree.Merge
open Tatu.ArmHandover (chosen_child chosenProperty chosenProperty_gains find?_modify find?_setProperty)
open Tatu.Handover (BlobLaw knownLib knownLib_law)
open Tatu.Lifecycle (BootLib bootargs)

/-- Setting a property twice is setting it once. -/
theorem setProperty_twice (properties : List Property) {p q : Property} (h : p.name=q.name) :
    setProperty (setProperty properties p) q=setProperty properties q := by
  unfold setProperty
  induction properties with
  | nil => simp [upsert,h]
  | cons r rest ih =>
    by_cases hr : r.name=q.name
    · simp [upsert,h,hr]
    · simpa [upsert,h,hr] using ih

/-- A change that a test does not see leaves the first hit where it is. -/
theorem findIdx?_modify {α : Type} {p : α → Bool} {f : α → α} (h : ∀ a, p (f a)=p a) (l : List α)
    (i : ℕ) : (l.modify i f).findIdx? p=l.findIdx? p := by
  have hsame : (l.modify i f).map p=l.map p := by
    refine List.ext_getElem? fun j => ?_
    rw [List.getElem?_map,List.getElem?_map,List.getElem?_modify]
    cases hj : l[j]? with
    | none => rfl
    | some a => by_cases hij : i=j <;> simp [hij,h]
  have hall : ∀ k : List α, k.findIdx? p=(k.map p).findIdx? id := by simp
  rw [hall,hsame,←hall]

/-- Why the command fails. -/
inductive CmdlineError where
  /-- `read DTB`. -/
  | read (path : String)
  /-- `parse DTB`. -/
  | parse
  /-- `re-encode DTB`. -/
  | encode
  /-- `write tmp` or `rename`. -/
  | write (path message : String)
deriving DecidableEq, Repr

/-- Why a file cannot be written, if it cannot. -/
abbrev Write : Type := Files → String → Bytes → Option String

/-- The devicetree library with its owned trees. -/
class OwnedLib extends BootLib where
  /-- `OwnedTree::encode`. -/
  encode : Node → Option Bytes

/-- `/chosen` with the line. -/
def setLine (new : String) (chosen : Node) : Node :=
  .mk chosen.name (setProperty chosen.properties (propertyString "bootargs" new)) chosen.children

/-- Setting the line twice is setting it once. -/
theorem setLine_setLine (old new : String) (chosen : Node) :
    setLine new (setLine old chosen)=setLine new chosen :=
  congrArg (Node.mk chosen.name · chosen.children) (setProperty_twice chosen.properties rfl)

section Commands

variable [OwnedLib]

/-- `read_bootargs`. -/
def readBootargs (bytes : Bytes) : Outcome CmdlineError String := do
  let tree ← okOr (BootLib.parseTree bytes) .parse
  .ok (((bootargs tree).bind DevtreeLib.asStr).getD "")

/-- The root with a `/chosen`, which is added if there is none. -/
def withChosen (root : Node) : Node :=
  if root.children.any fun c => OverlayLib.found "chosen" c.name then root
  else .mk root.name root.properties (root.children++[.mk "chosen" [] []])

/-- What `write_bootargs` does to the tree. -/
def setBootargs (new : String) (root : Node) : Outcome CmdlineError Node := do
  let root := withChosen root
  let i ← unwrap (root.children.findIdx? fun c => OverlayLib.found "chosen" c.name)
  .ok (changeAt (setLine new) [i] root)

/-- The bytes that `write_bootargs` puts in place of `bytes`. -/
def rewrite (bytes : Bytes) (new : String) : Outcome CmdlineError Bytes := do
  let tree ← okOr (BootLib.parseTree bytes) .parse
  let owned ← setBootargs new tree
  okOr (OwnedLib.encode owned) .encode

/-- `write_bootargs`. -/
def writeBootargs (write : Write) (path : String) (bytes : Bytes) (new : String) :
    Action Files CmdlineError Unit := do
  let out ← still (rewrite bytes new)
  let files ← look
  match write files path out with
  | some message => still (fail (.write path message))
  | none => change (·.replace path out)

/-- `run`: what is printed, if anything. -/
def run (write : Write) (path : String) (cmdline : Option String) :
    Action Files CmdlineError (Option String) := do
  let files ← look
  let bytes ← still (okOr (files.contents path) (.read path))
  match cmdline with
  | none => do
    let line ← still (readBootargs bytes)
    pure (some line)
  | some new => do
    writeBootargs write path bytes new
    pure none

/-- Run commands one after another, whatever each comes to, and keep the line of the last write
that has succeeded. -/
def runAll (write : Write) (path : String) : List (Option String) → Files×Option String →
    Files×Option String
  | [],s => s
  | command::rest,(files,line) => runAll write path rest
      ((runOn (run write path command) files).2,
        if (runOn (run write path command) files).1=.ok none then command else line)

/-- What an encoder is relied on for. -/
def EncodeLaw : Prop := ∀ tree out, OwnedLib.encode tree=some out →
  BootLib.parseTree out=some tree

/-- A root with a `/chosen` stays as it is. -/
theorem withChosen_of_found {root : Node} {i : ℕ}
    (h : (root.children.findIdx? fun c => OverlayLib.found "chosen" c.name)=some i) :
    withChosen root=root := by
  have hany : (root.children.any fun c => OverlayLib.found "chosen" c.name)=true := by
    rw [←List.findIdx?_isSome,h]
    rfl
  rw [withChosen,if_pos hany]

/-- Setting the line succeeds exactly where there is a `/chosen`, found or added. -/
theorem setBootargs_ok {new : String} {tree root : Node} : setBootargs new tree=.ok root ↔
    ∃ i, ((withChosen tree).children.findIdx? fun c => OverlayLib.found "chosen" c.name)=some i ∧
      root=changeAt (setLine new) [i] (withChosen tree) := by
  unfold setBootargs
  constructor
  · intro h
    obtain ⟨i,hi,h⟩ := bind_ok.mp h
    cases h
    exact ⟨i,unwrap_ok.mp hi,rfl⟩
  · rintro ⟨i,hi,rfl⟩
    exact bind_ok.mpr ⟨i,unwrap_ok.mpr hi,rfl⟩

/-- There always is one. -/
theorem exists_setBootargs (hself : OverlayLib.found "chosen" "chosen"=true) (new : String)
    (tree : Node) : ∃ root, setBootargs new tree=.ok root := by
  have hany : ((withChosen tree).children.any fun c => OverlayLib.found "chosen" c.name)=true := by
    unfold withChosen
    split
    · assumption
    · refine List.any_eq_true.mpr ⟨.mk "chosen" [] [],?_,hself⟩
      exact List.mem_append_right _ (List.mem_singleton_self _)
  rw [←List.findIdx?_isSome] at hany
  obtain ⟨i,hi⟩ := Option.isSome_iff_exists.mp hany
  exact ⟨_,setBootargs_ok.mpr ⟨i,hi,rfl⟩⟩

/-- The last line wins: the one before it leaves no trace. -/
theorem setBootargs_setBootargs {old new : String} {tree root : Node}
    (h : setBootargs old tree=.ok root) : setBootargs new root=setBootargs new tree := by
  obtain ⟨i,hi,rfl⟩ := setBootargs_ok.mp h
  have hkeep : ∀ c : Node, OverlayLib.found "chosen" (setLine old c).name=
      OverlayLib.found "chosen" c.name := fun _ => rfl
  have hfound : ((changeAt (setLine old) [i] (withChosen tree)).children.findIdx?
      fun c => OverlayLib.found "chosen" c.name)=some i := by
    exact (findIdx?_modify hkeep _ i).trans hi
  have hlast : (fun c => setLine new (setLine old c))=setLine new :=
    funext fun c => setLine_setLine old new c
  have htwice : changeAt (setLine new) [i] (changeAt (setLine old) [i] (withChosen tree))=
      changeAt (setLine new) [i] (withChosen tree) := by
    change Node.mk _ _ (((withChosen tree).children.modify i (setLine old)).modify i (setLine new))=
      Node.mk _ _ ((withChosen tree).children.modify i (setLine new))
    rw [List.modify_modify_eq]
    exact congrArg (fun f => Node.mk _ _ ((withChosen tree).children.modify i f)) hlast
  rw [setBootargs,withChosen_of_found hfound,ok_bind (unwrap_ok.mpr hfound),htwice,
    setBootargs,ok_bind (unwrap_ok.mpr hi)]

/-- A tree with another command line. -/
structure Retuned (new : String) (tree root : Node) : Prop where
  /-- The line is there. -/
  line : bootargs root=some (stringBytes new)
  /-- The other properties of `/chosen` are as they were. -/
  chosen : ∀ name, name≠"bootargs" → chosenProperty root name=chosenProperty tree name
  /-- The rest of the tree is as it was, but for a `/chosen` if it had none. -/
  rest : Gains "bootargs" (withChosen tree) root

/-- An added `/chosen` has no properties. -/
theorem chosenProperty_withChosen (law : PathLaw) (tree : Node) (name : String) :
    chosenProperty (withChosen tree) name=chosenProperty tree name := by
  unfold withChosen
  split
  · rfl
  · rename_i hno
    have hnone : DevtreeLib.child tree "chosen"=none := by
      rw [law.child,List.find?_eq_none]
      intro c hc hfound
      exact hno (List.any_eq_true.mpr ⟨c,hc,hfound⟩)
    rw [chosenProperty,chosenProperty,chosen_child law,chosen_child law,hnone]
    rw [law.child,List.find?_eq_none] at hnone
    rw [law.child]
    change (((tree.children++[Node.mk "chosen" [] []]).find? _).bind _)=none
    rw [List.find?_append,List.find?_eq_none.mpr hnone,Option.none_or]
    cases hnew : [Node.mk "chosen" [] []].find? fun c => OverlayLib.found "chosen" c.name with
    | none => rfl
    | some c =>
      rw [List.mem_singleton.mp (List.mem_of_find?_eq_some hnew)]
      rfl

/-- Setting the line sets it and nothing else. -/
theorem retuned_setBootargs (law : PathLaw) {new : String} {tree root : Node}
    (h : setBootargs new tree=.ok root) : Retuned new tree root := by
  obtain ⟨i,hi,rfl⟩ := setBootargs_ok.mp h
  have hchange : ∀ n, Gains "bootargs" n (setLine new n) := fun n =>
    by
    refine Gains.iff.mpr ⟨rfl,?_,Gains.refl_all _ n.children⟩
    exact PropertiesGain.set (show (propertyString "bootargs" new).name="bootargs" from rfl) n.properties
  have hgain := gains_changeAt hchange [i] (withChosen tree)
  constructor
  · have hkeep : ∀ c : Node, OverlayLib.found "chosen" (setLine new c).name=
        OverlayLib.found "chosen" c.name := fun _ => rfl
    obtain ⟨chosen,hchosen⟩ : ∃ chosen, (withChosen tree).children[i]?=some chosen := by
      have hlt := (List.findIdx?_eq_some_iff_getElem.mp hi).1
      exact ⟨_,List.getElem?_eq_getElem hlt⟩
    have hfind : ((withChosen tree).children.modify i (setLine new)).find?
        (fun c => OverlayLib.found "chosen" c.name)=some (setLine new chosen) :=
      find?_modify hkeep hi hchosen
    rw [bootargs,chosen_child law,law.child]
    change ((((withChosen tree).children.modify i (setLine new)).find? _).bind _)=_
    rw [hfind]
    exact congrArg (Option.map Property.value)
      (find?_setProperty chosen.properties (propertyString "bootargs" new))
  · intro name hne
    exact (chosenProperty_gains law hgain hne).trans (chosenProperty_withChosen law tree name)
  · exact hgain

/-- The bytes of a file into which `line` was written last, if any was. -/
def IsFile (tree : Node) (bytes : Bytes) : Option String → Bytes → Prop
  | none,out => out=bytes
  | some new,out => ∃ root, setBootargs new tree=.ok root ∧ OwnedLib.encode root=some out

/-- The tree of such a file. -/
theorem IsFile.parsed (hencode : EncodeLaw) {tree : Node} {bytes out : Bytes} {line : Option String}
    (hparse : BootLib.parseTree bytes=some tree) (h : IsFile tree bytes line out) :
    ∃ root, BootLib.parseTree out=some root ∧
      ∀ new, setBootargs new root=setBootargs new tree := by
  cases line with
  | none =>
    cases h
    exact ⟨tree,hparse,fun _ => rfl⟩
  | some old =>
    obtain ⟨root,hset,hout⟩ := h
    exact ⟨root,hencode root out hout,fun new => setBootargs_setBootargs hset⟩

/-- A write replaces the last line. -/
theorem IsFile.rewrite (hencode : EncodeLaw) {tree : Node} {bytes out out' : Bytes}
    {line : Option String} (hparse : BootLib.parseTree bytes=some tree)
    (h : IsFile tree bytes line out) {new : String} (hout : Cmdline.rewrite out new=.ok out') :
    IsFile tree bytes (some new) out' := by
  obtain ⟨root,hroot,hsame⟩ := h.parsed hencode hparse
  obtain ⟨parsed,hparsed,hout⟩ := bind_ok.mp hout
  obtain ⟨owned,howned,hencoded⟩ := bind_ok.mp hout
  have hsingle : parsed=root := Option.some.inj ((okOr_ok.mp hparsed).symm.trans hroot)
  rw [hsingle] at howned
  exact ⟨owned,(hsame new).symm.trans howned,okOr_ok.mp hencoded⟩

section Runs

variable {write : Write} {path : String} {files : Files} {bytes : Bytes} {tree : Node}

/-- Reading the file comes first. -/
theorem runOn_run (h : files.contents path=some bytes) (command : Option String) :
    runOn (run write path command) files=
      match command with
      | none => ((readBootargs bytes).map some,files)
      | some new => runOn (writeBootargs write path bytes new >>= fun _ => pure none) files := by
  have hread : runOn (still (okOr (files.contents path) (CmdlineError.read path))) files=
      (.ok bytes,files) := by
    rw [h]
    rfl
  unfold run
  rw [runOn_bind_ok (runOn_look files),runOn_bind_ok hread]
  cases command with
  | none =>
    dsimp only
    cases readBootargs bytes <;> rfl
  | some new => rfl

/-- Bytes that cannot be made leave the files alone. -/
theorem runOn_writeBootargs_error {new : String} {e : Fault CmdlineError}
    (h : rewrite bytes new=.error e) :
    runOn (writeBootargs write path bytes new) files=(.error e,files) := by
  unfold writeBootargs
  rw [h]
  rfl

/-- Others are put into the file, if it can be written. -/
theorem runOn_writeBootargs {new : String} {out : Bytes} (h : rewrite bytes new=.ok out) :
    runOn (writeBootargs write path bytes new) files=
      match write files path out with
      | some message => (fail (.write path message),files)
      | none => (.ok (),files.replace path out) := by
  have hmade : runOn (still (rewrite bytes new)) files=(.ok out,files) := by
    rw [h]
    rfl
  unfold writeBootargs
  rw [runOn_bind_ok hmade,runOn_bind_ok (runOn_look files)]
  cases write files path out <;> rfl

/-- The `/chosen` that the source expects is there. -/
theorem noPanic_rewrite (hself : OverlayLib.found "chosen" "chosen"=true) (bytes : Bytes)
    (new : String) : NoPanic (rewrite bytes new) := by
  refine (noPanic_okOr _ _).bind fun tree _ => ?_
  obtain ⟨root,hroot⟩ := exists_setBootargs hself new tree
  rw [ok_bind hroot]
  exact noPanic_okOr _ _

/-- A write either fails and leaves the files alone, or puts the new bytes there. -/
theorem runOn_write (hself : OverlayLib.found "chosen" "chosen"=true)
    (h : files.contents path=some bytes) (new : String) :
    (∃ e, runOn (run write path (some new)) files=(fail e,files)) ∨
      ∃ out, rewrite bytes new=.ok out ∧
        runOn (run write path (some new)) files=(.ok none,files.replace path out) := by
  have hrun : runOn (run write path (some new)) files=
      runOn (writeBootargs write path bytes new >>= fun _ => pure none) files := runOn_run h (some new)
  cases hout : rewrite bytes new with
  | error e =>
    cases e with
    | panic => exact absurd hout (noPanic_rewrite hself bytes new)
    | err e => exact .inl ⟨e,hrun.trans (runOn_bind_error (runOn_writeBootargs_error hout))⟩
  | ok out =>
    have hput := @runOn_writeBootargs _ write path files bytes new out hout
    cases hwrite : write files path out with
    | some message =>
      rw [hwrite] at hput
      exact .inl ⟨_,hrun.trans (runOn_bind_error hput)⟩
    | none =>
      rw [hwrite] at hput
      exact .inr ⟨out,rfl,hrun.trans (runOn_bind_ok hput)⟩

/-- The file after commands, and the last line that was written. -/
structure Kept (tree : Node) (bytes : Bytes) (path : String) (before : Files)
    (after : Files×Option String) : Prop where
  /-- The other files are as they were. -/
  others : ∀ p, p≠path → after.1.contents p=before.contents p
  /-- The file has the line. -/
  file : ∃ out, after.1.contents path=some out ∧ IsFile tree bytes after.2 out

/-- One command keeps the file. -/
theorem Kept.step (hself : OverlayLib.found "chosen" "chosen"=true) (hencode : EncodeLaw)
    (hparse : BootLib.parseTree bytes=some tree) {s : Files×Option String}
    (h : Kept tree bytes path files s) (command : Option String) :
    Kept tree bytes path files (runAll write path [command] s) := by
  obtain ⟨now,line⟩ := s
  obtain ⟨out,hout,hfile⟩ := h.file
  unfold runAll
  cases command with
  | none =>
    rw [runOn_run hout]
    dsimp only
    have hread : ¬(readBootargs out).map some=.ok none := by
      cases readBootargs out <;> simp [Except.map]
    rw [if_neg hread]
    exact h
  | some new =>
    rcases @runOn_write _ write path now out hself hout new with ⟨e,hfail⟩ | ⟨out',hnew,hdone⟩
    · rw [hfail,if_neg (by simp)]
      exact h
    · rw [hdone,if_pos rfl]
      refine ⟨fun p hp => ?_,out',if_pos rfl,hfile.rewrite hencode hparse hnew⟩
      exact (if_neg hp).trans (h.others p hp)

/-- So do any commands. -/
theorem kept_runAll (hself : OverlayLib.found "chosen" "chosen"=true) (hencode : EncodeLaw)
    (hparse : BootLib.parseTree bytes=some tree) (commands : List (Option String))
    {s : Files×Option String} (h : Kept tree bytes path files s) :
    Kept tree bytes path files (runAll write path commands s) := by
  induction commands generalizing s with
  | nil => exact h
  | cons command rest ih => exact ih (h.step hself hencode hparse command)

end Runs

end Commands

end Arma.Cmdline
