import Mathlib.Data.List.TakeWhile
import Mathlib.Tactic.Common
import Arma.Base.ByteString

/-!
# Arguments of the kernel command line

arma asks whether a command line requests a bootconfig. It scans the line for
arguments with positions; the kernel splits it into parameters with a name and a
value and hands them over up to a bare `--`. The scan finds the request exactly
when the kernel is handed a parameter of that name.
-/

namespace Arma.Kernel.CommandLine

open Base.ByteString

/-- `is_space`, which has the white space of the kernel's own character classes. -/
def isSpace (c : UInt8) : Bool := c==0x20 || (decide (9 ≤ c) && decide (c ≤ 13)) || c==0xa0

/-- `"`. -/
def quote : UInt8 := 0x22

/-- `=`. -/
def equalsSign : UInt8 := 0x3d

/-- `--`. -/
def dashes : Bytes := ascii "--"

/-- `bootconfig`. -/
def bootconfig : Bytes := ascii "bootconfig"

/-- The scan over an argument from position `i` on: where it ends, and where its
first `=` is, zero when there is none. -/
def scan : Bool → ℕ → ℕ → Bytes → ℕ×ℕ
  | _,equals,i,[] => (i,equals)
  | inQuote,equals,i,c::cs =>
    if isSpace c && !inQuote then (i,equals)
    else scan (if c=quote then !inQuote else inQuote)
      (if equals=0 ∧ c=equalsSign then i else equals) (i+1) cs

/-- The scan does not go back. -/
theorem le_scan (inQuote : Bool) (equals i : ℕ) (cs : Bytes) :
    i ≤ (scan inQuote equals i cs).1 := by
  induction cs generalizing inQuote equals i with
  | nil => exact le_rfl
  | cons c cs ih =>
    rw [scan]
    split
    · exact le_rfl
    · exact (Nat.le_succ i).trans (ih _ _ _)

/-- It goes over a byte that is no space. -/
theorem scan_pos {c : UInt8} (h : isSpace c=false) (inQuote : Bool) (cs : Bytes) :
    0<(scan inQuote 0 0 (c::cs)).1 := by
  rw [scan,if_neg (by simp [h])]
  exact le_scan _ _ 1 cs

/-- The head of what is left behind spaces is no space. -/
theorem head_not_space {line cs : Bytes} {c : UInt8} (h : line.dropWhile isSpace=c::cs) :
    isSpace c=false := by
  have hhead := List.head?_dropWhile_not isSpace line
  rw [h] at hhead
  simpa using hhead

/-- An argument behind its opening quote, if it has one. -/
def opened (c : UInt8) (cs : Bytes) : Bytes := if c=quote then cs else c::cs

/-- What is left behind a scanned argument. -/
theorem length_scanned {line cs : Bytes} {c : UInt8} (h : line.dropWhile isSpace=c::cs) :
    ((opened c cs).drop (scan (c==quote) 0 0 (opened c cs)).1).length<line.length := by
  have hle : (c::cs).length ≤ line.length := h ▸ (List.dropWhile_sublist _).length_le
  rw [List.length_cons] at hle
  rw [List.length_drop,opened]
  split
  · omega
  · have hpos := scan_pos (head_not_space h) (c==quote) cs
    rw [List.length_cons]
    omega

/-- The loop over the arguments. -/
def requestedIn (line : Bytes) : Bool :=
  match _h : line.dropWhile isSpace with
  | [] => false
  | c::cs =>
    let quoted := c==quote
    let rest := opened c cs
    let found := scan quoted 0 0 rest
    let whole := rest.take (if found.2=0 then found.1 else found.2)
    let name := if quoted=true ∧ found.2=0 ∧ whole.getLast?=some quote then whole.dropLast else whole
    if found.2=0 ∧ name=dashes then false
    else if name=bootconfig then true
    else requestedIn (rest.drop found.1)
termination_by line.length
decreasing_by exact length_scanned _h

/-- `bootconfig_requested`: a zero byte ends the line. -/
def bootconfigRequested (line : Bytes) : Bool := requestedIn (line.takeWhile (· != 0))

/-- A parameter as the kernel sees it. -/
structure Param where
  /-- Its name. -/
  name : Bytes
  /-- Its value, if it has one. -/
  value : Option Bytes
deriving DecidableEq, Repr

/-- The bytes up to the first space outside quotes, and what follows them. -/
def splitWord : Bool → Bytes → Bytes×Bytes
  | _,[] => ([],[])
  | inQuote,c::cs =>
    if isSpace c && !inQuote then ([],c::cs)
    else
      let word := splitWord (if c=quote then !inQuote else inQuote) cs
      (c::word.1,word.2)

/-- Take a closing quote away. -/
def closeQuote (word : Bytes) : Bytes := if word.getLast?=some quote then word.dropLast else word

/-- A value without its own quotes, or without the one that closes the argument. -/
def unquote (quoted : Bool) (value : Bytes) : Bytes :=
  match value with
  | [] => []
  | c::cs => if c=quote then closeQuote cs else if quoted then closeQuote value else value

/-- The name of an argument is in front of the first `=` that is not its first
byte, the value behind it. -/
def paramOf (quoted : Bool) : Bytes → Param
  | [] => ⟨[],none⟩
  | c::cs =>
    match cs.dropWhile (· != equalsSign) with
    | [] => ⟨if quoted then closeQuote (c::cs) else c::cs,none⟩
    | _::value => ⟨c::cs.takeWhile (· != equalsSign),some (unquote quoted value)⟩

/-- `next_arg`: the argument at the start of the line, in quotes or not, and what
follows it. -/
def nextArg : Bytes → Param×Bytes
  | [] => (⟨[],none⟩,[])
  | c::cs =>
    let word := splitWord (c==quote) (opened c cs)
    (paramOf (c==quote) word.1,word.2)

/-- An argument is made of a word and what follows. -/
theorem splitWord_append (inQuote : Bool) (cs : Bytes) :
    (splitWord inQuote cs).1++(splitWord inQuote cs).2=cs := by
  induction cs generalizing inQuote with
  | nil => rfl
  | cons c cs ih =>
    rw [splitWord]
    split
    · rfl
    · exact congrArg (c::·) (ih _)

/-- The scan and the kernel's split find the same end. -/
theorem scan_stop (inQuote : Bool) (equals i : ℕ) (cs : Bytes) :
    (scan inQuote equals i cs).1=i+(splitWord inQuote cs).1.length := by
  induction cs generalizing inQuote equals i with
  | nil => rfl
  | cons c cs ih =>
    rw [scan,splitWord]
    split
    · rfl
    · rw [ih,List.length_cons]
      omega

/-- Behind the scanned argument is what the kernel leaves. -/
theorem drop_scan (inQuote : Bool) (cs : Bytes) :
    cs.drop (scan inQuote 0 0 cs).1=(splitWord inQuote cs).2 := by
  have hdrop : ((splitWord inQuote cs).1++(splitWord inQuote cs).2).drop
      (splitWord inQuote cs).1.length=(splitWord inQuote cs).2 := List.drop_left' rfl
  rw [scan_stop,Nat.zero_add]
  rwa [splitWord_append] at hdrop

/-- Up to there is the kernel's argument. -/
theorem take_scan (inQuote : Bool) (cs : Bytes) :
    cs.take (scan inQuote 0 0 cs).1=(splitWord inQuote cs).1 := by
  have htake : ((splitWord inQuote cs).1++(splitWord inQuote cs).2).take
      (splitWord inQuote cs).1.length=(splitWord inQuote cs).1 := List.take_left' rfl
  rw [scan_stop,Nat.zero_add]
  rwa [splitWord_append] at htake

/-- The parameters of a line, each behind spaces. -/
def paramsIn (line : Bytes) : List Param :=
  match _h : line.dropWhile isSpace with
  | [] => []
  | c::cs => (nextArg (c::cs)).1::paramsIn (nextArg (c::cs)).2
termination_by line.length
decreasing_by
  have hlt := length_scanned _h
  rwa [drop_scan] at hlt

/-- A bare `--` ends the parameters of the kernel. -/
def Param.isBareDashes (p : Param) : Bool := p.value.isNone && p.name==dashes

/-- `parse_args`: the parameters that are handed over, those in front of a bare
`--`. A zero byte ends the line. -/
def parseArgs (line : Bytes) : List Param :=
  (paramsIn (line.takeWhile (· != 0))).takeWhile fun p => !p.isBareDashes

/-- Where the first `=` of a word is, for a scan that has come to position `i`. -/
def equalsAt : ℕ → ℕ → Bytes → ℕ
  | equals,_,[] => equals
  | equals,i,c::cs => equalsAt (if equals=0 ∧ c=equalsSign then i else equals) (i+1) cs

/-- The scan finds the first `=` of the word it goes over. -/
theorem scan_equals (inQuote : Bool) (equals i : ℕ) (cs : Bytes) :
    (scan inQuote equals i cs).2=equalsAt equals i (splitWord inQuote cs).1 := by
  induction cs generalizing inQuote equals i with
  | nil => rfl
  | cons c cs ih =>
    rw [scan,splitWord]
    split
    · rfl
    · rw [ih]
      rfl

/-- The first one found stays. -/
theorem equalsAt_found {equals : ℕ} (h : equals≠0) (i : ℕ) (cs : Bytes) :
    equalsAt equals i cs=equals := by
  induction cs generalizing i with
  | nil => rfl
  | cons c cs ih => rw [equalsAt,if_neg (fun hzero => h hzero.1),ih]

/-- Behind the first position, the first one is found where it is. -/
theorem equalsAt_eq {i : ℕ} (hi : i≠0) (cs : Bytes) :
    equalsAt 0 i cs=
      if equalsSign∈cs then i+(cs.takeWhile (· != equalsSign)).length else 0 := by
  induction cs generalizing i with
  | nil => rfl
  | cons c cs ih =>
    by_cases hc : c=equalsSign
    · rw [equalsAt,if_pos ⟨rfl,hc⟩,equalsAt_found hi,if_pos (hc ▸ List.mem_cons_self),
        List.takeWhile_cons_of_neg (by simp [hc])]
      rfl
    · have hmem : equalsSign∈c::cs ↔ equalsSign∈cs := by simp [Ne.symm hc]
      rw [equalsAt,if_neg (fun hboth => hc hboth.2),ih (by omega),
        List.takeWhile_cons_of_pos (by simp [hc]),List.length_cons]
      simp only [hmem]
      split <;> omega

/-- The first byte of a word is no sign. -/
theorem equalsAt_cons (c : UInt8) (cs : Bytes) : equalsAt 0 0 (c::cs)=equalsAt 0 1 cs := by
  rw [equalsAt,ite_self]

/-- It is inside the word. -/
theorem equalsAt_le (cs : Bytes) : equalsAt 0 0 cs ≤ cs.length := by
  cases cs with
  | nil => exact le_rfl
  | cons c cs =>
    have hle := (List.takeWhile_sublist (· != equalsSign) (l := cs)).length_le
    rw [equalsAt_cons,equalsAt_eq one_ne_zero,List.length_cons]
    split <;> omega

/-- An `=` is behind the bytes that are none. -/
theorem dropWhile_equals (cs : Bytes) :
    cs.dropWhile (· != equalsSign)=[] ↔ equalsSign∉cs := by
  rw [List.dropWhile_eq_nil_iff]
  simp only [bne_iff_ne]
  exact ⟨fun h hmem => h _ hmem rfl,fun h c hc heq => h (heq ▸ hc)⟩

/-- What the scan takes for the name of an argument. -/
def scannedName (quoted : Bool) (word : Bytes) (equals : ℕ) : Bytes :=
  let whole := word.take (if equals=0 then word.length else equals)
  if quoted=true ∧ equals=0 ∧ whole.getLast?=some quote then whole.dropLast else whole

/-- It is the name that the kernel takes, and the argument has a value when the
kernel says so. -/
theorem scannedName_eq (quoted : Bool) (word : Bytes) :
    scannedName quoted word (equalsAt 0 0 word)=(paramOf quoted word).name ∧
      (equalsAt 0 0 word=0 ↔ (paramOf quoted word).value.isNone=true) := by
  cases word with
  | nil => cases quoted <;> exact ⟨rfl,by decide⟩
  | cons c cs =>
    rw [equalsAt_cons,equalsAt_eq one_ne_zero,paramOf]
    by_cases hmem : equalsSign∈cs
    · -- the name ends at the sign
      obtain ⟨sign,value,hvalue⟩ :=
        List.exists_cons_of_ne_nil (mt (dropWhile_equals cs).mp (not_not_intro hmem))
      have hfirst : cs.take (cs.takeWhile (· != equalsSign)).length=
          cs.takeWhile (· != equalsSign) :=
        (List.prefix_iff_eq_take.mp (List.takeWhile_prefix _)).symm
      have hpos : 1+(cs.takeWhile (· != equalsSign)).length≠0 := by omega
      rw [if_pos hmem,hvalue]
      refine ⟨?_,by simp⟩
      rw [scannedName,if_neg hpos,if_neg (fun hall => hpos hall.2.1),Nat.add_comm,
        List.take_succ_cons,hfirst]
    · -- the whole argument is the name
      rw [if_neg hmem,(dropWhile_equals cs).mpr hmem]
      refine ⟨?_,by simp⟩
      rw [scannedName,if_pos rfl,List.take_length]
      cases quoted with
      | false => rw [if_neg (fun hall => Bool.false_ne_true hall.1)]; rfl
      | true =>
        simp only [true_and]
        rfl

/-- What a turn of the loop finds is the parameter that the kernel takes off. -/
theorem scanned_param (c : UInt8) (cs : Bytes) :
    let found := scan (c==quote) 0 0 (opened c cs)
    let whole := (opened c cs).take (if found.2=0 then found.1 else found.2)
    let p := (nextArg (c::cs)).1
    (if (c==quote)=true ∧ found.2=0 ∧ whole.getLast?=some quote then whole.dropLast else whole)=
        p.name ∧
      (found.2=0 ↔ p.value.isNone=true) := by
  let word := (splitWord (c==quote) (opened c cs)).1
  have hstop : (scan (c==quote) 0 0 (opened c cs)).1=word.length := by
    rw [scan_stop,Nat.zero_add]
  have hequals : (scan (c==quote) 0 0 (opened c cs)).2=equalsAt 0 0 word := scan_equals _ 0 0 _
  have hword : (opened c cs).take word.length=word := by
    rw [←hstop,take_scan]
  have hwhole : ∀ k, k ≤ word.length → (opened c cs).take k=word.take k := by
    intro k hk
    rw [←hword,List.take_take,Nat.min_eq_left hk]
  have hlimit : (if equalsAt 0 0 word=0 then word.length else equalsAt 0 0 word) ≤ word.length := by
    have hle := equalsAt_le word
    split <;> omega
  obtain ⟨hname,hvalue⟩ := scannedName_eq (c==quote) word
  dsimp only
  rw [hequals,hstop,hwhole _ hlimit]
  exact ⟨hname,hvalue⟩

/-- It is a bare `--` to the loop when it is one to the kernel. -/
theorem scanned_bareDashes (c : UInt8) (cs : Bytes) :
    let found := scan (c==quote) 0 0 (opened c cs)
    let whole := (opened c cs).take (if found.2=0 then found.1 else found.2)
    (nextArg (c::cs)).1.isBareDashes=true ↔ found.2=0 ∧
      (if (c==quote)=true ∧ found.2=0 ∧ whole.getLast?=some quote then whole.dropLast else whole)=
        dashes := by
  obtain ⟨hname,hvalue⟩ := scanned_param c cs
  dsimp only
  rw [Param.isBareDashes,Bool.and_eq_true,beq_iff_eq,hname,hvalue]

/-- The kernel takes parameters off a line with something behind its spaces. -/
theorem paramsIn_cons {line cs : Bytes} {c : UInt8} (h : line.dropWhile isSpace=c::cs) :
    paramsIn line=(nextArg (c::cs)).1::paramsIn (nextArg (c::cs)).2 := by
  rw [paramsIn]
  split
  · rename_i hnil
    rw [h] at hnil
    cases hnil
  · rename_i hcons
    rw [h] at hcons
    cases hcons
    rfl

/-- A line of spaces has no parameters. -/
theorem paramsIn_nil {line : Bytes} (h : line.dropWhile isSpace=[]) : paramsIn line=[] := by
  rw [paramsIn]
  split
  · rfl
  · rename_i hcons
    rw [h] at hcons
    cases hcons

/-- A word of plain bytes ends at the space behind it. -/
theorem splitWord_plain {word : Bytes} (line : Bytes)
    (h : ∀ c∈word, isSpace c=false ∧ c≠quote) :
    splitWord false (word++0x20::line)=(word,0x20::line) := by
  induction word with
  | nil => rfl
  | cons c cs ih =>
    obtain ⟨hspace,hquote⟩ := h c List.mem_cons_self
    rw [List.cons_append,splitWord,if_neg (by simp [hspace]),if_neg hquote,
      ih fun b hb => h b (List.mem_cons_of_mem _ hb)]

/-- Such a word in front of a line is a parameter of its own, and the parameters of the
line stay what they are. -/
theorem paramsIn_plain {c : UInt8} {cs : Bytes} (line : Bytes)
    (h : ∀ b∈c::cs, isSpace b=false ∧ b≠quote ∧ b≠equalsSign) :
    paramsIn (c::cs++0x20::line)=⟨c::cs,none⟩::paramsIn line := by
  obtain ⟨hspace,hquote,-⟩ := h c List.mem_cons_self
  have hdrop : (c::cs++0x20::line).dropWhile isSpace=c::(cs++0x20::line) :=
    List.dropWhile_cons_of_neg (by simp [hspace])
  have hword := splitWord_plain line fun b hb => ⟨(h b hb).1,(h b hb).2.1⟩
  have hequals : equalsSign∉cs := fun hmem => (h _ (List.mem_cons_of_mem _ hmem)).2.2 rfl
  have hnext : nextArg (c::(cs++0x20::line))=(⟨c::cs,none⟩,0x20::line) := by
    have hquoted : (c==quote)=false := beq_eq_false_iff_ne.mpr hquote
    rw [nextArg,opened,if_neg hquote,hquoted,←List.cons_append,hword]
    dsimp only
    rw [paramOf,(dropWhile_equals cs).mpr hequals]
    rfl
  have hrest : paramsIn (0x20::line)=paramsIn line := by
    have hskip : (0x20::line).dropWhile isSpace=line.dropWhile isSpace :=
      List.dropWhile_cons_of_pos (by decide)
    cases hline : line.dropWhile isSpace with
    | nil => rw [paramsIn_nil hline,paramsIn_nil (hskip.trans hline)]
    | cons b bs => rw [paramsIn_cons hline,paramsIn_cons (hskip.trans hline)]
  rw [paramsIn_cons hdrop,hnext,hrest]

/-- A name is made of bytes of its argument. -/
theorem mem_paramOf {quoted : Bool} {word : Bytes} {b : UInt8}
    (h : b∈(paramOf quoted word).name) : b∈word := by
  cases word with
  | nil => exact h
  | cons c cs =>
    rw [paramOf] at h
    split at h
    · dsimp only at h
      split at h
      · rw [closeQuote] at h
        split at h
        · exact (List.dropLast_sublist _).subset h
        · exact h
      · exact h
    · exact List.cons_subset_cons c (List.takeWhile_sublist _).subset h

/-- So the names of parameters are made of bytes of the line. -/
theorem mem_name {line : Bytes} {p : Param} {b : UInt8} (hp : p∈paramsIn line) (hb : b∈p.name) :
    b∈line := by
  fun_induction paramsIn line with
  | case1 line hnil => cases hp
  | case2 line c cs hcons ih =>
    have hline : ∀ x∈c::cs, x∈line := fun x hx =>
      (List.dropWhile_sublist isSpace).subset (hcons ▸ hx)
    have hopened : ∀ x∈opened c cs, x∈c::cs := by
      intro x hx
      rw [opened] at hx
      split at hx
      · exact List.mem_cons_of_mem _ hx
      · exact hx
    have hword := splitWord_append (c==quote) (opened c cs)
    rcases List.mem_cons.mp hp with rfl | hrest
    · exact hline _ (hopened _ (hword ▸ List.mem_append_left _ (mem_paramOf hb)))
    · exact hline _ (hopened _ (hword ▸ List.mem_append_right _ (ih hrest)))

/-- The scan of a line finds a request in front of a bare `--`. -/
theorem requestedIn_iff (line : Bytes) :
    requestedIn line=true ↔
      ∃ p∈(paramsIn line).takeWhile fun p => !p.isBareDashes, p.name=bootconfig := by
  fun_induction requestedIn line with
  | case1 line hnil =>
    rw [paramsIn_nil hnil]
    simp
  | case2 line c cs hcons quoted rest found whole name hbare =>
    have hdashes := (scanned_bareDashes c cs).mpr hbare
    rw [paramsIn_cons hcons,List.takeWhile_cons_of_neg (by simp [hdashes])]
    simp
  | case3 line c cs hcons quoted rest found whole name hbare hfound =>
    obtain ⟨hname,-⟩ := scanned_param c cs
    have hkept := mt (scanned_bareDashes c cs).mp hbare
    rw [paramsIn_cons hcons,List.takeWhile_cons_of_pos (by simp [hkept])]
    exact iff_of_true rfl ⟨_,List.mem_cons_self,hname.symm.trans hfound⟩
  | case4 line c cs hcons quoted rest found whole name hbare hother ih =>
    obtain ⟨hname,-⟩ := scanned_param c cs
    have hkept := mt (scanned_bareDashes c cs).mp hbare
    have hrest : rest.drop found.1=(nextArg (c::cs)).2 := drop_scan _ _
    have hne : (nextArg (c::cs)).1.name≠bootconfig := fun heq => hother (hname.trans heq)
    rw [ih,hrest,paramsIn_cons hcons,List.takeWhile_cons_of_pos (by simp [hkept])]
    simp [hne]

/-- A bootconfig is requested exactly when the kernel hands over a parameter of
that name. -/
theorem bootconfigRequested_iff (line : Bytes) :
    bootconfigRequested line=true ↔ ∃ p∈parseArgs line, p.name=bootconfig := requestedIn_iff _

/-- A plain word in front of a line, other than the bare `--` and the request itself,
makes no difference. -/
theorem bootconfigRequested_plain {c : UInt8} {cs : Bytes} (line : Bytes)
    (h : ∀ b∈c::cs, isSpace b=false ∧ b≠quote ∧ b≠equalsSign) (hzero : ∀ b∈c::cs, b≠0)
    (hdashes : c::cs≠dashes) (hother : c::cs≠bootconfig) :
    bootconfigRequested (c::cs++0x20::line)=bootconfigRequested line := by
  have hcut : (c::cs++0x20::line).takeWhile (· != 0)=c::cs++0x20::line.takeWhile (· != 0) := by
    rw [List.takeWhile_append_of_pos fun b hb => bne_iff_ne.mpr (hzero b hb)]
    rfl
  have hkept : (⟨c::cs,none⟩ : Param).isBareDashes=false := by
    simp [Param.isBareDashes,hdashes]
  rw [Bool.eq_iff_iff,bootconfigRequested,bootconfigRequested,hcut,requestedIn_iff,requestedIn_iff,
    paramsIn_plain _ h,List.takeWhile_cons_of_pos (by simp [hkept])]
  simp [hother]

/-- A line without one of the bytes of the request does not ask for it. -/
theorem not_bootconfigRequested {line : Bytes} {b : UInt8} (hb : b∈bootconfig) (h : b∉line) :
    bootconfigRequested line=false := by
  rw [Bool.eq_false_iff]
  intro hrequested
  obtain ⟨p,hp,hname⟩ := (requestedIn_iff _).mp hrequested
  have hmem := (List.takeWhile_sublist _).subset hp
  exact h ((List.takeWhile_sublist _).subset (mem_name hmem (hname ▸ hb)))

/-- Quotes hide spaces, a quoted `--` is bare, and a name may be quoted. -/
example : parseArgs (ascii "a=\"b c\" \"bootconfig\" \"--\" x")=
    [⟨ascii "a",some (ascii "b c")⟩,⟨bootconfig,none⟩] := by decide +kernel

end Arma.Kernel.CommandLine
