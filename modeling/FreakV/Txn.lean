import Mathlib.Data.Prod.Lex

namespace FreakV

structure TxnId where
  timestampNs : Nat
  connPtr : Nat
  pipelineIdx : Nat
deriving DecidableEq, Repr, Inhabited

def txnIdCmp (a b : TxnId) : Int :=
  if a.timestampNs ≠ b.timestampNs then
    if a.timestampNs < b.timestampNs then -1 else 1
  else if a.pipelineIdx ≠ b.pipelineIdx then
    if a.pipelineIdx < b.pipelineIdx then -1 else 1
  else if a.connPtr ≠ b.connPtr then
    if a.connPtr < b.connPtr then -1 else 1
  else 0

def txnIdEq (a b : TxnId) : Bool :=
  a.timestampNs == b.timestampNs && a.connPtr == b.connPtr && a.pipelineIdx == b.pipelineIdx

def TxnId.rank (a : TxnId) : Nat ×ₗ Nat ×ₗ Nat :=
  toLex (a.timestampNs, toLex (a.pipelineIdx, a.connPtr))

theorem TxnId.rank_injective : Function.Injective TxnId.rank := by
  intro a b same
  cases a
  cases b
  simp only [TxnId.rank, EmbeddingLike.apply_eq_iff_eq, Prod.mk.injEq] at same
  simp [same]

instance : LinearOrder TxnId := LinearOrder.lift' TxnId.rank TxnId.rank_injective

theorem TxnId.lt_iff (a b : TxnId) :
    a < b ↔ a.timestampNs < b.timestampNs ∨ a.timestampNs = b.timestampNs ∧
      (a.pipelineIdx < b.pipelineIdx ∨ a.pipelineIdx = b.pipelineIdx ∧ a.connPtr < b.connPtr) := by
  change a.rank < b.rank ↔ _
  simp [TxnId.rank, Prod.Lex.toLex_lt_toLex]

theorem txnIdCmp_neg (a b : TxnId) : txnIdCmp a b < 0 ↔ a < b := by
  rw [TxnId.lt_iff]
  unfold txnIdCmp
  split_ifs <;> simp <;> omega

theorem txnIdCmp_nonneg (a b : TxnId) : 0 ≤ txnIdCmp a b ↔ b ≤ a := by
  rw [← not_lt, txnIdCmp_neg, not_lt]

end FreakV
