import Arma.Base.ByteString
import Arma.Base.Checked

/-!
# Kernel releases

A release becomes one component of the path of the modules.
-/

namespace Arma.Kernel.Release

open Base.ByteString Base.Checked

/-- What is wrong with a release. -/
inductive ReleaseError where
  /-- `target kernel has no Linux release banner`. -/
  | missing
  /-- `malformed target kernel release banner: {0}`. -/
  | malformed (reason : String)
  /-- `target kernel contains conflicting releases: {first:?} and {other:?}`. -/
  | conflicting (first other : String)
deriving DecidableEq, Repr

/-- `MAX_RELEASE`. -/
def maxRelease : ℕ := 255

/-- `is_ascii_graphic`, but for separators. -/
def isComponentChar (c : Char) : Bool :=
  decide (33 ≤ c.toNat ∧ c.toNat ≤ 126) && c != '/' && c != '\\' && c != ':'

/-- A release that is a single component of a path on every host. -/
def ValidComponent (release : String) : Prop :=
  release≠"" ∧ release.utf8ByteSize ≤ maxRelease ∧ release≠"." ∧ release≠".." ∧
    ∀ c∈release.toList, isComponentChar c=true

instance (release : String) : Decidable (ValidComponent release) := by
  unfold ValidComponent
  infer_instance

/-- Reject any other release. -/
def validateComponent (release : String) : Outcome ReleaseError Unit :=
  if ValidComponent release then .ok ()
  else fail (.malformed "unsafe release directory component")

/-- Whether a release is accepted. -/
theorem validateComponent_ok {release : String} :
    validateComponent release=.ok () ↔ ValidComponent release := by
  unfold validateComponent
  split
  · rename_i h
    exact iff_of_true rfl h
  · rename_i h
    exact iff_of_false fail_ne_ok h

end Arma.Kernel.Release
