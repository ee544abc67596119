import GatewayPoc.Core.Machine
import Mathlib.Algebra.Order.Sub.Basic
import Mathlib.Data.Multiset.OrderedMonoid
import Mathlib.Data.List.Pairwise
import Mathlib.Data.List.Nodup

/-!
# The hand-off ledger

What a store-and-forward component is for, with nothing of how it does it: items are *posted* by
somebody else, *wait* in a store, are taken over and *held*, and are handed out in *lots*.  An
item is at one of these places at a time and never vanishes.

`Ledger.machine` is this abstract component over an arbitrary type of items.  Its two general
facts are that the places add up to what was posted (`Ledger.balanced`) and that, items being
posted at most once, no two lots share an item (`Ledger.lots_disjoint`).  An implementation that
refines the ledger (`Machine.Reachable.map`) inherits both.
-/

namespace GatewayPoc

/-- Where the posted items are. -/
structure Ledger (α : Type*) where
  /-- Everything ever posted. -/
  posted : Multiset α
  /-- Posted and not taken over yet. -/
  waiting : Multiset α
  /-- Taken over and not handed out yet. -/
  held : Multiset α
  /-- The lots handed out, in order. -/
  lots : List (List α)

namespace Ledger

variable {α : Type*}

/-- What can happen to a ledger. -/
inductive Move (α : Type*) where
  /-- A new item is posted. -/
  | post (a : α)
  /-- Waiting items are taken over. -/
  | take (b : List α)
  /-- Held items are handed out as one lot. -/
  | hand (c : List α)

/-- The empty ledger. -/
def empty : Ledger α := ⟨0, 0, 0, []⟩

section

variable [DecidableEq α]

/-- One move; an item is posted at most once, and only items that are there can be moved. -/
def next (l : Ledger α) : Move α → Option (Ledger α)
  | .post a =>
    if a ∈ l.posted then none
    else some { l with posted := a ::ₘ l.posted, waiting := a ::ₘ l.waiting }
  | .take b =>
    if (b : Multiset α) ≤ l.waiting then
      some { l with waiting := l.waiting - (b : Multiset α), held := l.held + (b : Multiset α) }
    else none
  | .hand c =>
    if (c : Multiset α) ≤ l.held then
      some { l with held := l.held - (c : Multiset α), lots := l.lots ++ [c] }
    else none

/-- The ledger as a state machine. -/
def machine : Machine (Ledger α) (Move α) where
  init l := l = empty
  next := next

/-- Everything posted is waiting, held or handed out, and was posted once. -/
structure Balanced (l : Ledger α) : Prop where
  total : l.posted = l.waiting + l.held + (l.lots.flatten : Multiset α)
  nodup : l.posted.Nodup

theorem Balanced.next {l l' : Ledger α} {m : Move α} (h : l.Balanced)
    (hn : l.next m = some l') : l'.Balanced := by
  cases m with
  | post a =>
    simp only [Ledger.next] at hn
    split_ifs at hn with ha
    obtain rfl := Option.some.inj hn
    exact ⟨by simp [h.total], Multiset.nodup_cons.2 ⟨ha, h.nodup⟩⟩
  | take b =>
    simp only [Ledger.next] at hn
    split_ifs at hn with hb
    obtain rfl := Option.some.inj hn
    refine ⟨?_, h.nodup⟩
    have hw : l.waiting - (b : Multiset α) + (l.held + (b : Multiset α)) = l.waiting + l.held := by
      rw [add_comm l.held, ← add_assoc, tsub_add_cancel_of_le hb]
    simpa only [hw] using h.total
  | hand c =>
    simp only [Ledger.next] at hn
    split_ifs at hn with hc
    obtain rfl := Option.some.inj hn
    refine ⟨?_, h.nodup⟩
    have hh : l.held - (c : Multiset α) + (c : Multiset α) = l.held := tsub_add_cancel_of_le hc
    have hl : ((l.lots ++ [c]).flatten : Multiset α) =
        (c : Multiset α) + (l.lots.flatten : Multiset α) := by
      simp [add_comm, ← Multiset.coe_add]
    simp only [hl]
    rw [h.total, add_assoc l.waiting (l.held - _), ← add_assoc (l.held - _), hh, add_assoc]

/-- **Conservation**: every reachable ledger is balanced. -/
theorem balanced {l : Ledger α} (h : machine.Reachable Machine.anyStep l) : l.Balanced := by
  refine h.invariant ?_ fun _ _ _ _ hl _ hn => hl.next hn
  rintro l rfl
  exact ⟨by simp [empty], Multiset.nodup_zero⟩

theorem steps_take {l : Ledger α} {b : List α} (hb : (b : Multiset α) ≤ l.waiting) :
    machine.Steps l { l with waiting := l.waiting - (b : Multiset α),
                             held := l.held + (b : Multiset α) } :=
  Machine.Steps.one (M := machine) (l := .take b) (if_pos hb)

/-- Lots that are held together can be handed out one after the other. -/
theorem steps_hand_all (cs : List (List α)) : ∀ {l : Ledger α} {r : Multiset α},
    l.held = r + (cs.flatten : Multiset α) →
      machine.Steps l { l with held := r, lots := l.lots ++ cs } := by
  induction cs with
  | nil =>
    intro l r h
    obtain rfl : l.held = r := by simpa using h
    simpa using Machine.Steps.refl l
  | cons c cs ih =>
    intro l r h
    have hh : l.held = r + (cs.flatten : Multiset α) + (c : Multiset α) := by
      rw [h, List.flatten_cons, ← Multiset.coe_add, add_comm (c : Multiset α), add_assoc]
    have hc : (c : Multiset α) ≤ l.held := hh ▸ Multiset.le_add_left _ _
    refine Machine.Steps.head (M := machine) (l := .hand c) (if_pos hc) ?_
    have := ih (l := { l with held := l.held - (c : Multiset α), lots := l.lots ++ [c] }) (r := r)
      (by rw [hh, add_tsub_cancel_right])
    simpa using this

end

/-! ### Lots and their names -/

/-- No item is in two lots. -/
theorem Balanced.lots_disjoint {l : Ledger α} (h : l.Balanced) :
    l.lots.Pairwise List.Disjoint := by
  have hn : (l.lots.flatten : Multiset α).Nodup :=
    Multiset.nodup_of_le (h.total ▸ Multiset.le_add_left _ _) h.nodup
  exact (List.nodup_flatten.1 (Multiset.coe_nodup.1 hn)).2

/-- An item in a lot neither waits nor is held. -/
theorem Balanced.not_mem_of_mem_lot {l : Ledger α} (h : l.Balanced) {c : List α} (hc : c ∈ l.lots)
    {a : α} (ha : a ∈ c) : a ∉ l.waiting ∧ a ∉ l.held := by
  have hn : (l.waiting + l.held + (l.lots.flatten : Multiset α)).Nodup := h.total ▸ h.nodup
  have hlot : a ∈ (l.lots.flatten : Multiset α) := List.mem_flatten.2 ⟨c, hc, ha⟩
  have hout : a ∉ l.waiting + l.held := fun h' =>
    Multiset.disjoint_left.1 (Multiset.nodup_add.1 hn).2.2 h' hlot
  exact ⟨fun h' => hout (Multiset.mem_add.2 (Or.inl h')),
    fun h' => hout (Multiset.mem_add.2 (Or.inr h'))⟩

/-- If lots of the same name always share an item, no two lots have the same name. -/
theorem nodup_filterMap_of_disjoint {κ : Type*} {name : List α → Option κ} {lots : List (List α)}
    (hd : lots.Pairwise List.Disjoint)
    (hname : ∀ c ∈ lots, ∀ d ∈ lots, ∀ k, name c = some k → name d = some k → ∃ a ∈ c, a ∈ d) :
    (lots.filterMap name).Nodup := by
  refine List.pairwise_filterMap.2 (hd.imp_of_mem ?_)
  rintro c d hc hd hcd k hk k' hk' rfl
  obtain ⟨a, hac, had⟩ := hname c hc d hd k hk hk'
  exact hcd hac had

end Ledger

end GatewayPoc
