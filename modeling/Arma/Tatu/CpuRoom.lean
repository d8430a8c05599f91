import Arma.Acpi.Workspace
import Arma.BaseDtb
import Arma.Tatu.Overlay

/-!
# Cpus that tatu accepts and cpus that the tables hold

The validator admits 2048 cpus and 32 memory regions, and the workspace for the
tables is made for them. The count pass admits fewer cpus and fewer domains.
-/

namespace Arma.Tatu.CpuRoom

open Acpi.Capacity Acpi.Count Acpi.Dtb Acpi.Layout Acpi.Numbered Acpi.Tables Acpi.Virtio
open Acpi.Bridges Acpi.Counted Acpi.Numa Acpi.Workspace
open Base.ByteString Base.Checked Base.Writer BaseDtb Devtree Devtree.Merge Overlay Validate

/-- `ACPI_WORKSPACE_SIZE`. -/
def acpiWorkspaceSize : ℕ := 320*1024

/-- A child of the root as the count pass reads it. -/
def kid (c : Node) : DtbNode := ⟨c,2,2,.root⟩

section Merged

variable [OverlayLib]

end Merged


/-- A cpu of the host's. -/
def sampleCpu (i : ℕ) : Node := .mk ("cpu@"++i.repr) [⟨"reg",beBytes 4 i⟩] []

/-- Cpus of the host's. -/
def sampleCpus (n : ℕ) : Node :=
  .mk "cpus" [⟨"#address-cells",beBytes 4 1⟩,⟨"#size-cells",beBytes 4 0⟩]
    ((List.range n).map sampleCpu)

/-- Memory of the host's. -/
def sampleMemory : Node := .mk "memory@40000000" [⟨"reg",dtReg 0x40000000 0x10000000⟩] []

/-- An overlay with a number of cpus and some memory. -/
def cpusOverlay (n : ℕ) : List Fragment :=
  [⟨.path "/",.mk "__overlay__" [] [sampleCpus n,sampleMemory]⟩]

/-- The inputs of an x86 board without slots. -/
def plainInputs : Inputs := ⟨.x86_64,"quiet",none,none,[],none,none⟩

/-- That board with a number of cpus and some memory. -/
def cpusBoard (n : ℕ) : Node :=
  .mk "" (tree plainInputs).properties ((tree plainInputs).children++[sampleCpus n,sampleMemory])

/-- The name of a cpu is `cpu` with a number. -/
theorem topSegment_sampleCpu (i : ℕ) : topSegment (sampleCpu i).name="cpu" := by
  change String.ofList (("cpu@"++i.repr).toList.takeWhile (· != '@'))="cpu"
  rw [String.toList_append]
  rfl

/-- Different cpus have different names. -/
theorem sampleCpu_apart (n : ℕ) : ((List.range n).map sampleCpu).Pairwise fun c d =>
    decide (d.name=c.name)=false := by
  rw [List.pairwise_map]
  refine List.pairwise_lt_range.imp fun {i j} hij => ?_
  rw [decide_eq_false_iff_not]
  intro hname
  have hrepr : j.repr=i.repr := (String.append_right_inj "cpu@").mp hname
  have hdigits : Nat.toDigits 10 j=Nat.toDigits 10 i := by
    rw [←Nat.toList_repr,←Nat.toList_repr,hrepr]
  have hsame : j=i := by
    rw [←@Nat.ofDigitChars_ten_toDigits j,hdigits,Nat.ofDigitChars_ten_toDigits]
  omega

/-- The cpus are merged as they are. -/
theorem merge_sampleCpus (n : ℕ) :
    mergeInto (fun name other => decide (name=other)) (sampleCpus n) (.mk "cpus" [] [])=
      sampleCpus n := by
  rw [sampleCpus,mergeInto]
  change Node.mk "cpus" _ (mergeAll _ ((List.range n).map sampleCpu) [])=_
  rw [mergeAll_new ?_ ?_ (sampleCpu_apart n),List.nil_append]
  · rfl
  · intro c hc
    obtain ⟨i,_,rfl⟩ := List.mem_map.mp hc
    rfl
  · intro c _ kid hkid
    cases hkid

/-- The overlay applies. -/
theorem apply_cpusOverlay (n : ℕ) :
    @Merge.apply plainOverlayLib (tree plainInputs) (cpusOverlay n)=some (cpusBoard n) := by
  have hnames : ∀ name∈["cpus","memory@40000000"], ∀ kid∈(tree plainInputs).children,
      decide (name=kid.name)=false := by decide
  have hmerge : mergeAll (fun name other => decide (name=other)) [sampleCpus n,sampleMemory]
      (tree plainInputs).children=(tree plainInputs).children++[sampleCpus n,sampleMemory] := by
    refine mergeAll_new ?_ ?_ ?_
    · intro c hc
      rcases List.mem_pair.mp hc with rfl | rfl
      · exact merge_sampleCpus n
      · rfl
    · intro c hc
      refine hnames c.name ?_
      rcases List.mem_pair.mp hc with rfl | rfl
      · exact List.mem_cons_self
      · exact List.mem_cons_of_mem _ List.mem_cons_self
    · exact List.pairwise_pair.mpr rfl
  change some (mergeInto _ (.mk "__overlay__" [] [sampleCpus n,sampleMemory]) (tree plainInputs))=_
  rw [tree,mergeInto]
  change some (Node.mk "" _ (mergeAll (fun name other => decide (name=other))
    [sampleCpus n,sampleMemory] (tree plainInputs).children))=_
  rw [hmerge]
  rfl

/-- The overlay is accepted. -/
theorem cpusOverlay_accepted (n : ℕ) :
    @validateHostDtbo plainOverlayLib (cpusOverlay n) (tree plainInputs)=.ok () := by
  have hcpus : ((List.range n).map sampleCpu).forM checkCpu=.ok () := by
    rw [forM_ok]
    intro c hc
    have ⟨i,_,heq⟩ := List.mem_map.mp hc
    subst heq
    rw [checkCpu,if_neg (not_not_intro (topSegment_sampleCpu i))]
    rfl
  have hroot : checkRootChild (sampleCpus n)=.ok () := by
    have hname : topSegment "cpus"="cpus" := by decide
    have hname : topSegment (sampleCpus n).name="cpus" := hname
    rw [checkRootChild,hname]
    change checkCpusAdditions (sampleCpus n)=_
    rw [checkCpusAdditions]
    exact hcpus
  have hmemory : checkRootChild sampleMemory=.ok () := by decide +kernel
  refine forM_ok.mpr fun frag hfrag => ?_
  rw [List.mem_singleton.mp hfrag]
  change [sampleCpus n,sampleMemory].forM checkRootChild=_
  rw [forM_ok]
  intro c hc
  rcases List.mem_pair.mp hc with rfl | rfl
  · exact hroot
  · exact hmemory

end Arma.Tatu.CpuRoom
