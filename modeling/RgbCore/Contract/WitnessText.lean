import RgbCore.Contract.Witness
import RgbCore.Contract.SealText

/-!
# Witness positions, orders and ids as text

`WitnessPos` displays as `{height}@{timestamp}`, both in decimal and the
timestamp with a `-` when negative; `WitnessOrd` displays a position on chain as
that position and the off-chain order as `offchain`; `WitnessId` displays as
`bitcoin:` or `liquid:` followed by the txid. This repository has no parser for
any of them.

No two values of these types print the same text. A position splits at its
`@`, which neither number contains, and each number reads back; an on-chain
order holds an `@` and `offchain` does not; the two layer prefixes differ in
their first letter, and a txid reads back from its hex.
-/

namespace RgbCore

open Text

/-- `Display for i64`: a `-` before the digits of a negative number. -/
instance : Display I64 :=
  ⟨fun x => if x.val < 0 then '-' :: decimal x.val.natAbs else decimal x.val.toNat⟩

/-- `Display for WitnessPos`: `{height}@{timestamp}`. -/
instance : Display WitnessPos := ⟨fun p => decimal p.height.toNat ++ '@' :: Display.fmt p.timestamp⟩

/-- `Display for WitnessOrd`: the position on chain, `offchain` off it. -/
instance : Display WitnessOrd :=
  ⟨fun | .onChain p => Display.fmt p | .offChain => "offchain".toList⟩

/-- `Display for WitnessId`: `bitcoin:{txid}` or `liquid:{txid}`. -/
instance : Display WitnessId :=
  ⟨fun | .bitcoin t => "bitcoin:".toList ++ Display.fmt t | .liquid t => "liquid:".toList ++ Display.fmt t⟩

theorem decimal_injective : Function.Injective decimal := fun n m h => by
  have hn := parseUnsigned_decimal (show n < n + m + 1 by omega)
  rw [h, parseUnsigned_decimal (show m < n + m + 1 by omega)] at hn
  exact (Except.ok.inj hn).symm

theorem fmt_i64_injective : Function.Injective (Display.fmt : I64 → List Char) := fun x y h => by
  have hminus : ∀ n, '-' ∉ decimal n := not_mem_decimal rfl
  change (if x.val < 0 then _ else _) = (if y.val < 0 then _ else _) at h
  apply I64.ext_val
  split_ifs at h with hx hy hy
  · have := decimal_injective (List.cons.inj h).2
    omega
  · exact absurd (h ▸ List.mem_cons_self _ _) (hminus _)
  · exact absurd (h ▸ List.mem_cons_self _ _) (hminus _)
  · have := decimal_injective h
    omega

theorem fmt_witnessPos_injective : Function.Injective (Display.fmt : WitnessPos → List Char) :=
  fun ⟨h, t⟩ ⟨h', t'⟩ he => by
    have hat : ∀ n, '@' ∉ decimal n := not_mem_decimal rfl
    have hs := congrArg (splitOnce '@') he
    change splitOnce '@' (decimal h.toNat ++ '@' :: _) = splitOnce '@' (decimal h'.toNat ++ '@' :: _)
      at hs
    rw [splitOnce_append (hat _), splitOnce_append (hat _), Option.some.injEq, Prod.mk.injEq] at hs
    obtain rfl := UInt32.toNat.inj (decimal_injective hs.1)
    obtain rfl : t = t' := fmt_i64_injective hs.2
    rfl

theorem fmt_txid_injective : Function.Injective (Display.fmt : Txid → List Char) := fun t t' h => by
  have ht := fromStr_fmt_txid t
  rw [h, fromStr_fmt_txid] at ht
  exact (Except.ok.inj ht).symm

/-- No two witness orders, and no two witness ids, print the same text. -/
theorem fmt_witness_injective :
    Function.Injective (Display.fmt : WitnessOrd → List Char) ∧
    Function.Injective (Display.fmt : WitnessId → List Char) := by
  have hat : ∀ p : WitnessPos, '@' ∈ Display.fmt p := fun p =>
    List.mem_append_right _ (List.mem_cons_self _ _)
  have hoff : '@' ∉ "offchain".toList := by decide
  refine ⟨fun o o' h => ?_, fun w w' h => ?_⟩
  · cases o <;> cases o'
    · exact congrArg _ (fmt_witnessPos_injective h)
    · exact (hoff (h ▸ hat _ : '@' ∈ Display.fmt WitnessOrd.offChain)).elim
    · exact (hoff (h.symm ▸ hat _ : '@' ∈ Display.fmt WitnessOrd.offChain)).elim
    · rfl
  · cases w <;> cases w' <;> simp only [Display.fmt] at h
    · exact congrArg _ (fmt_txid_injective (List.append_cancel_left h))
    · exact absurd (congrArg List.head? h) (by simp)
    · exact absurd (congrArg List.head? h) (by simp)
    · exact congrArg _ (fmt_txid_injective (List.append_cancel_left h))

end RgbCore
