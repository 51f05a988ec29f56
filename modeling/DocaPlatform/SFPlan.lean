import DocaPlatform.SriovPlan

/-!
# The SF plan and the DMA SF

The groups of a DPUFlavor, or those that stand for its `PF_TOTAL_SF` if it declares none, are
planned as Scalable Functions. The agent adds the DMA SF on a device of its own choice, under a
fixed number.
-/
namespace DocaPlatform.SFPlan

open Netip EncryptionConfig FreeNumbers Runs SriovPlan List

section Admission

-- Whether a text matches a regular expression.
variable (pattern : String → String → Bool)

end Admission

/-- `sfPlan`. -/
structure Plan where
  ports : List NICPort
  sfs : List PlannedSF

section Target

-- `deviceHasRDMA` of the file system.
variable (deviceHasRDMA : String → Except String Bool)

end Target

/-! ## Room for the DMA SF -/

section Sums

variable {α : Type} {l : List α} {m n : α → ℕ} {a b : α}

end Sums

variable {flavor : Flavor} {ports : List NICPort} {isBF4 : Bool} {target device : String}
  {total trusted : ℕ} {plan : Plan} {port q : NICPort}

section Compatible

variable {parseMAC : String → Except String (List ℕ)} {sfs : List PlannedSF}

end Compatible

section Main

variable {parseMAC : String → Except String (List ℕ)} {deviceHasRDMA : String → Except String Bool}

end Main

end DocaPlatform.SFPlan
