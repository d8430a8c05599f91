import Arma.Base.Text
import Arma.Kernel.CommandLine
import Arma.Kernel.Config

/-!
# What a kernel supports

A bootconfig that the command line asks for reaches the kernel only when the kernel can
read one and when the line that it uses still asks for it. The vCPU profile is never
below what the kernel is built for.
-/

namespace Arma.Kernel.Support

open Base.ByteString Base.Checked Base.Text CommandLine Config Image Modules.Index

/-- Errors of the bootconfig check. -/
inductive BootconfigError where
  /-- `bootconfig requires {0}=y`. -/
  | missingSupport (option : String)
  /-- `kernel command-line configuration or truncation removes bootconfig activation`. -/
  | inactive
deriving DecidableEq, Repr

/-- `KernelCommandLine::CAPACITY`. -/
def capacity : ℕ := 2048

/-- The options that a bootconfig needs. -/
def bootconfigOptions : List String :=
  ["CONFIG_BOOT_CONFIG","CONFIG_BLK_DEV_INITRD","CONFIG_PROC_FS"]

/-- What stands between the quotes of a line that sets the built-in command line. -/
def quotedCmdline (line : String) : Option (List Char) := do
  let rest ← stripPrefix "CONFIG_CMDLINE=\"".toList (line.toList.dropWhile isWhiteSpace)
  if rest.getLast?=some '"' then some rest.dropLast else none

/-- Take the backslashes of a quoted value away; one at its end stays. -/
def unescape : List Char → List Char
  | [] => []
  | '\\'::c::cs => c::unescape cs
  | c::cs => c::unescape cs

/-- Write a value as Kconfig does, with a backslash in front of a double quote or a
backslash. -/
def escape : List Char → List Char
  | [] => []
  | c::cs => if c= '"' ∨ c= '\\' then '\\'::c::escape cs else c::escape cs

/-- Any other character stands for itself. -/
theorem unescape_cons {c : Char} (h : c≠ '\\') (cs : List Char) :
    unescape (c::cs)=c::unescape cs := by
  rw [unescape]
  intro _ _ hc
  exact absurd hc h

/-- A value is read as it was written. -/
theorem unescape_escape (value : List Char) : unescape (escape value)=value := by
  induction value with
  | nil => rfl
  | cons c cs ih =>
    rw [escape]
    split
    · rw [unescape,ih]
    · rename_i hplain
      rw [unescape_cons (fun hc => hplain (.inr hc)),ih]

/-- `builtin_cmdline`. -/
def builtinCmdline (cfg : KernelConfig) : String :=
  .ofList (unescape (((lines cfg.text).findSome? quotedCmdline).getD []))

/-- The command line that the kernel goes by: x86 puts the built-in one in front or uses
it alone, arm64 puts it behind or uses it alone. -/
def effectiveCmdline (cfg : KernelConfig) (arch : Arch) (cmdline : String) : Bytes :=
  let effective := (utf8 cmdline).take (capacity-1)
  let builtin := utf8 (builtinCmdline cfg)
  let combined :=
    if arch=.x86_64 ∧ cfg.isBuiltin "CONFIG_CMDLINE_BOOL"=true then
      if cfg.isBuiltin "CONFIG_CMDLINE_OVERRIDE"=true then builtin
      else if builtin=[] then effective
      else builtin++[0x20]++effective
    else if arch=.aarch64 ∧ cfg.isBuiltin "CONFIG_CMDLINE_EXTEND"=true then
      effective++[0x20]++builtin
    else if arch=.aarch64 ∧ cfg.isBuiltin "CONFIG_CMDLINE_FORCE"=true then builtin
    else effective
  combined.take (capacity-1)

/-- What a kernel does with its built-in command line. -/
inductive BuiltinUse where
  /-- It goes by the one that it is given. -/
  | unused
  /-- It goes by the built-in one. -/
  | replaces
  /-- The built-in one stands in front. -/
  | before
  /-- The built-in one stands behind. -/
  | behind
deriving DecidableEq, Repr

/-- The options that decide it. -/
def builtinUse (cfg : KernelConfig) : Arch → BuiltinUse
  | .x86_64 =>
    if cfg.isBuiltin "CONFIG_CMDLINE_BOOL"=true then
      if cfg.isBuiltin "CONFIG_CMDLINE_OVERRIDE"=true then .replaces else .before
    else .unused
  | .aarch64 =>
    if cfg.isBuiltin "CONFIG_CMDLINE_EXTEND"=true then .behind
    else if cfg.isBuiltin "CONFIG_CMDLINE_FORCE"=true then .replaces
    else .unused

/-- The line in the buffer of a kernel: one that is given is cut to the buffer, then the
built-in one is used, and what comes out is cut once more. -/
def kernelLine (use : BuiltinUse) (builtin supplied : Bytes) : Bytes :=
  let line := supplied.take (capacity-1)
  let whole := match use with
    | .unused => line
    | .replaces => builtin
    | .before => if builtin=[] then line else builtin++0x20::line
    | .behind => line++0x20::builtin
  whole.take (capacity-1)

/-- The line that is checked is the one in the buffer. -/
theorem effectiveCmdline_eq (cfg : KernelConfig) (arch : Arch) (cmdline : String) :
    effectiveCmdline cfg arch cmdline=
      kernelLine (builtinUse cfg arch) (utf8 (builtinCmdline cfg)) (utf8 cmdline) := by
  cases arch with
  | x86_64 =>
    unfold effectiveCmdline kernelLine builtinUse
    split_ifs <;> simp_all
  | aarch64 =>
    unfold effectiveCmdline kernelLine builtinUse
    split_ifs <;> simp_all

/-- A built-in command line is read as Kconfig wrote it. -/
theorem builtinCmdline_escape {cfg : KernelConfig} {value : String}
    (h : (lines cfg.text).findSome? quotedCmdline=some (escape value.toList)) :
    builtinCmdline cfg=value := by
  rw [builtinCmdline,h,Option.getD_some,unescape_escape,String.ofList_toList]

/-- Without one the line is empty. -/
theorem builtinCmdline_none {cfg : KernelConfig}
    (h : (lines cfg.text).findSome? quotedCmdline=none) : builtinCmdline cfg="" := by
  rw [builtinCmdline,h]
  rfl

/-- An option of the list is not built in. -/
def requireAll (cfg : KernelConfig) (options : List String) : Outcome BootconfigError Unit :=
  options.forM fun option =>
    if cfg.isBuiltin option=true then .ok () else fail (.missingSupport option)

/-- `check_bootconfig`. -/
def checkBootconfig (cfg : KernelConfig) (arch : Arch) (cmdline : String) :
    Outcome BootconfigError Unit := do
  requireAll cfg bootconfigOptions
  if cfg.isBuiltin "CONFIG_BOOT_CONFIG_FORCE"=true then .ok ()
  else if bootconfigRequested (effectiveCmdline cfg arch cmdline)=true then .ok ()
  else fail .inactive

/-- The lowest profile that the kernel can run on. -/
def isaFloor (cfg : KernelConfig) : Arch → String
  | .x86_64 =>
    if cfg.isSet "CONFIG_X86_64_V4"=true then "x86-64-v4"
    else if cfg.isSet "CONFIG_X86_64_V3"=true then "x86-64-v3"
    else if cfg.isSet "CONFIG_X86_64_V2"=true then "x86-64-v2"
    else "x86-64-v1"
  | .aarch64 => "armv8.0-a"

/-- The profiles of an architecture, the lowest first. -/
def isaLevels : Arch → List String
  | .x86_64 => ["x86-64-v1","x86-64-v2","x86-64-v3","x86-64-v4"]
  | .aarch64 => ["armv8.0-a","armv8.1-a","armv8.2-a","armv8.3-a","armv8.4-a","armv8.5-a",
      "armv8.6-a"]

/-- Place of a profile among those that are known. -/
def rank (arch : Arch) (profile : String) : Option ℕ := (isaLevels arch).idxOf? profile

/-- `raise_to_floor`: a profile that is not known stays as it is. -/
def raiseToFloor (chosen floor : String) (arch : Arch) : String :=
  match rank arch chosen,rank arch floor with
  | some c,some f => if c<f then floor else chosen
  | _,_ => chosen

/-- A bootconfig is accepted exactly for a kernel that can read one and that finds it
asked for. -/
theorem checkBootconfig_ok {cfg : KernelConfig} {arch : Arch} {cmdline : String} :
    checkBootconfig cfg arch cmdline=.ok () ↔
      (∀ option∈bootconfigOptions, cfg.isBuiltin option=true) ∧
        (cfg.isBuiltin "CONFIG_BOOT_CONFIG_FORCE"=true ∨
          bootconfigRequested (effectiveCmdline cfg arch cmdline)=true) := by
  have hall : requireAll cfg bootconfigOptions=.ok () ↔
      ∀ option∈bootconfigOptions, cfg.isBuiltin option=true := by
    unfold requireAll
    rw [forM_ok]
    refine forall₂_congr fun option _ => ?_
    split
    · rename_i hset
      exact iff_of_true rfl hset
    · rename_i hset
      exact iff_of_false fail_ne_ok hset
  unfold checkBootconfig
  rw [bind_ok,←hall]
  constructor
  · rintro ⟨_,hrequired,h⟩
    refine ⟨hrequired,?_⟩
    split at h
    · rename_i hforce
      exact .inl hforce
    · split at h
      · rename_i hactive
        exact .inr hactive
      · exact absurd h fail_ne_ok
  · rintro ⟨hrequired,h⟩
    refine ⟨(),hrequired,?_⟩
    by_cases hforce : cfg.isBuiltin "CONFIG_BOOT_CONFIG_FORCE"=true
    · rw [if_pos hforce]
    · rw [if_neg hforce,if_pos (h.resolve_left hforce)]

/-- What a kernel goes by fits its buffer. -/
theorem length_effectiveCmdline (cfg : KernelConfig) (arch : Arch) (cmdline : String) :
    (effectiveCmdline cfg arch cmdline).length<capacity := by
  have hlt : capacity-1<capacity := by decide
  exact (List.length_take_le _ _).trans_lt hlt

/-- The floor is a known profile. -/
theorem isaFloor_known (cfg : KernelConfig) (arch : Arch) :
    ∃ f, rank arch (isaFloor cfg arch)=some f := by
  cases arch with
  | aarch64 => exact ⟨0,rfl⟩
  | x86_64 =>
    rw [isaFloor]
    split_ifs
    · exact ⟨3,by decide⟩
    · exact ⟨2,by decide⟩
    · exact ⟨1,by decide⟩
    · exact ⟨0,by decide⟩

/-- A known profile ends up at the higher one of itself and the floor. -/
theorem rank_raiseToFloor {chosen floor : String} {arch : Arch} {c f : ℕ}
    (hc : rank arch chosen=some c) (hf : rank arch floor=some f) :
    rank arch (raiseToFloor chosen floor arch)=some (max c f) := by
  unfold raiseToFloor
  rw [hc,hf]
  dsimp only
  split
  · rename_i hlt
    rw [hf,max_eq_right hlt.le]
  · rename_i hle
    rw [hc,max_eq_left (by omega)]

/-- The profile that the build emits is never below what the kernel is built for. -/
theorem floor_le_profile {chosen : String} {arch : Arch} {c : ℕ} (cfg : KernelConfig)
    (hc : rank arch chosen=some c) :
    ∃ f r, rank arch (isaFloor cfg arch)=some f ∧
      rank arch (raiseToFloor chosen (isaFloor cfg arch) arch)=some r ∧ f≤r := by
  obtain ⟨f,hf⟩ := isaFloor_known cfg arch
  exact ⟨f,max c f,hf,rank_raiseToFloor hc hf,le_max_right c f⟩

end Arma.Kernel.Support
