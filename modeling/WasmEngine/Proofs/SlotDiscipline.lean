import WasmEngine.Code.Listing
import WasmEngine.Proofs.Bodies

/-!
# Operands in slots

Compiled code has slots in place of an operand stack, and nothing in a statement says which of the
slots are in use. `Disciplined` finds that out again from the statements alone. It follows a body
from its start and keeps the types of the operands that are there at each point. A statement takes
its operands from the slots of the latest ones and puts its result into the slot that comes next.

So a construct has one place for its result. It is the slot that comes next where the construct
stands, every branch that leaves the construct moves the operand it carries there, and it is where
the statements after the construct find the result.

All of this holds in code that cannot be reached too, where operands that are not there may be taken
from the lowest slot of their lane.
-/

namespace WasmEngine

/-! ## The discipline -/

/-- The slot of the operand that a branch carries. -/
def Target.operand : Target → Option Slot
  | .leave _ carry => carry.map Prod.fst
  | .restart _ => none
  | .ret value => value

namespace Stmt

/-- The slots that a statement takes operands from, the latest operand first. -/
def takes : Stmt → List Slot
  | .conditional _ cond _ _ => [cond]
  | .branch target => target.operand.toList
  | .branchIf cond target => cond :: target.operand.toList
  | .branchTable index _ default => index :: default.operand.toList
  | .ret value => value.toList
  | .call _ args _ => args.reverse
  | .callIndirect _ callee args _ => callee :: args.reverse
  | .copy (.local _) src => [src]
  | .copy (.stack _ _) (.stack t height) => [.stack t height]
  | .globalSet _ src => [src]
  | .select dst ifFalse cond => [cond, ifFalse, dst]
  | .unary _ _ operand => [operand]
  | .binary _ _ lhs rhs => [rhs, lhs]
  | .load _ _ _ addr => [addr]
  | .store _ _ addr value => [value, addr]
  | .memoryGrow _ delta => [delta]
  | _ => []

/-- The slot that a statement puts an operand into, or in which it leaves one. -/
def gives : Stmt → Option Slot
  | .branchIf _ target => target.operand
  | .call _ _ result | .callIndirect _ _ _ result => result
  | .copy (.local _) src => some src
  | .copy dst _ | .const dst _ | .globalGet dst _ | .select dst _ _ | .unary _ dst _
  | .binary _ dst _ _ | .load _ _ dst _ | .memorySize dst | .memoryGrow dst _ => some dst
  | _ => none

/-- Whether control goes on to the next statement, unless it branches, without entering a body. -/
def isPlain : Stmt → Bool
  | .unreachable | .block .. | .loop .. | .conditional .. | .branch _ | .branchTable .. | .ret _ =>
    false
  | _ => true

/-- All branches of a table carry the same operand. -/
def Uniform : Stmt → Prop
  | .branchTable _ targets default => ∀ target ∈ targets, target.operand = default.operand
  | _ => True

end Stmt

/-- The operands of a body at some point of it. -/
structure BodyState where
  /-- Their types, the latest first. -/
  types : List ValueType := []
  /-- Whether control cannot reach this point. -/
  dead : Bool := false

namespace BodyState

variable (base : Lanes Nat) (o : BodyState)

/-- The operands in each lane, with those below the body. -/
def height : Lanes Nat := .ofFn fun t ↦ base.get t + o.types.count t

def next (t : ValueType) : Slot := .stack t ((o.height base).get t)

def push (t : ValueType) : BodyState := { o with types := t :: o.types }

def push? (t : Option ValueType) : BodyState := t.elim o o.push

/-- Operands are taken from slots, one after the other. In dead code some may be missing. -/
inductive Pops (base : Lanes Nat) : BodyState → List Slot → BodyState → Prop
  | nil {o : BodyState} : Pops base o [] o
  | live {o o' : BodyState} {slots : List Slot} (t : ValueType) (h : Pops base o slots o') :
      Pops base (o.push t) (o.next base t :: slots) o'
  | dead {o' : BodyState} {slots : List Slot} (t : ValueType) (h : Pops base ⟨[], true⟩ slots o') :
      Pops base ⟨[], true⟩ (.stack t (base.get t) :: slots) o'

/-- An operand, if there is one, goes to the next slot. -/
inductive Gains (base : Lanes Nat) (o : BodyState) : Option Slot → BodyState → Prop
  | none : Gains base o none o
  | some (t : ValueType) : Gains base o (some (o.next base t)) (o.push t)

/-- A body that ends so leaves its result and nothing else, or control does not get there. -/
def Ends (result : Option ValueType) : Prop :=
  o.types = result.toList ∨ (o.dead = true ∧ o.types = [])

end BodyState

def Label.floor : List Label → Lanes Nat
  | [] => Lanes.zero
  | l :: _ => l.base

/-- The statements of a body, in constructs with the given labels, lead from no operands to those of
the state. Operands can be dropped without a statement for it. -/
inductive Disciplined (L : Layout) : List Label → List Stmt → BodyState → Prop
  | nil {ls : List Label} : Disciplined L ls [] {}
  | drop {ls : List Label} {body : List Stmt} {o o' : BodyState} {slots : List Slot}
      (h : Disciplined L ls body o) (hpops : o.Pops (Label.floor ls) slots o') :
      Disciplined L ls body o'
  | plain {ls : List Label} {body : List Stmt} {stmt : Stmt} {o o₁ o' : BodyState}
      (h : Disciplined L ls body o) (hplain : stmt.isPlain = true) (hfits : stmt.Fits L ls)
      (hpops : o.Pops (Label.floor ls) stmt.takes o₁)
      (hgains : o₁.Gains (Label.floor ls) stmt.gives o') :
      Disciplined L ls (body ++ [stmt]) o'
  | divert {ls : List Label} {body : List Stmt} {stmt : Stmt} {o o' : BodyState}
      (h : Disciplined L ls body o) (hdiverts : stmt.Diverts) (hfits : stmt.Fits L ls)
      (huniform : stmt.Uniform) (hpops : o.Pops (Label.floor ls) stmt.takes o') :
      Disciplined L ls (body ++ [stmt]) ⟨[], true⟩
  | block {ls : List Label} {body inner : List Stmt} {o e : BodyState} (r : Option ValueType)
      (h : Disciplined L ls body o)
      (hinner : Disciplined L (⟨false, r, o.height (Label.floor ls)⟩ :: ls) inner e)
      (hends : e.Ends r) :
      Disciplined L ls (body ++ [.block (ls.length + 1) inner]) (o.push? r)
  | loop {ls : List Label} {body inner : List Stmt} {o e : BodyState} (r : Option ValueType)
      (h : Disciplined L ls body o)
      (hinner : Disciplined L (⟨true, r, o.height (Label.floor ls)⟩ :: ls) inner e)
      (hends : e.Ends r) :
      Disciplined L ls (body ++ [.loop (ls.length + 1) inner]) (o.push? r)
  | conditional {ls : List Label} {body thenBody elseBody : List Stmt} {cond : Slot}
      {o o₁ e e' : BodyState} (r : Option ValueType) (h : Disciplined L ls body o)
      (hcond : L.HasSlot cond .i32) (hpops : o.Pops (Label.floor ls) [cond] o₁)
      (hthen : Disciplined L (⟨false, r, o₁.height (Label.floor ls)⟩ :: ls) thenBody e)
      (hends : e.Ends r)
      (helse : Disciplined L (⟨false, r, o₁.height (Label.floor ls)⟩ :: ls) elseBody e')
      (hends' : e'.Ends r) :
      Disciplined L ls (body ++ [.conditional (ls.length + 1) cond thenBody elseBody])
        (o₁.push? r)

variable {L L' : Layout} {ls : List Label} {body : List Stmt} {o o' : BodyState}

/-- Statements that keep the discipline fit the layout. -/
theorem Disciplined.fits (h : Disciplined L ls body o) : ∀ stmt ∈ body, stmt.Fits L ls := by
  induction h with
  | nil => simp
  | drop _ _ ih => exact ih
  | plain _ _ hfits _ _ ih => exact List.forall_mem_append.mpr ⟨ih, by simpa using hfits⟩
  | divert _ _ hfits _ _ ih => exact List.forall_mem_append.mpr ⟨ih, by simpa using hfits⟩
  | block r _ _ _ ih ihinner =>
    exact List.forall_mem_append.mpr ⟨ih, by simpa using .block r _ ihinner⟩
  | loop r _ _ _ ih ihinner =>
    exact List.forall_mem_append.mpr ⟨ih, by simpa using .loop r _ ihinner⟩
  | conditional r _ hcond _ _ _ _ _ ih ihthen ihelse =>
    exact List.forall_mem_append.mpr ⟨ih, by simpa using .conditional r _ hcond ihthen ihelse⟩

/-- More room does not matter to the discipline. -/
theorem Disciplined.mono (hle : L.Le L') (h : Disciplined L ls body o) :
    Disciplined L' ls body o := by
  induction h with
  | nil => exact .nil
  | drop _ hpops ih => exact .drop ih hpops
  | plain _ hplain hfits hpops hgains ih => exact .plain ih hplain (hfits.mono hle) hpops hgains
  | divert _ hdiverts hfits huniform hpops ih =>
    exact .divert ih hdiverts (hfits.mono hle) huniform hpops
  | block r _ _ hends ih ihinner => exact .block r ih ihinner hends
  | loop r _ _ hends ih ihinner => exact .loop r ih ihinner hends
  | conditional r _ hcond hpops _ hends _ hends' ih ihthen ihelse =>
    exact .conditional r ih (hcond.mono hle) hpops ihthen hends ihelse hends'

namespace BodyState

variable {base : Lanes Nat} {slot : Slot} {slots slots' : List Slot} {t : ValueType}

/-- Operands come off one after the other. -/
theorem Pops.append {o₁ : BodyState} (h : o.Pops base slots o₁) (h' : o₁.Pops base slots' o') :
    o.Pops base (slots ++ slots') o' := by
  induction h with
  | nil => exact h'
  | live t _ ih => exact .live t (ih h')
  | dead t _ ih => exact .dead t (ih h')

/-- Whatever was taken, its slot comes next. -/
theorem Pops.eq_next (h : o.Pops base [slot] o') : ∃ t, slot = o'.next base t := by
  cases h with
  | live t h =>
    cases h
    exact ⟨t, rfl⟩
  | dead t h =>
    cases h
    exact ⟨t, by simp [next, height]⟩

theorem pops_push (o : BodyState) (t : ValueType) : (o.push t).Pops base [o.next base t] o :=
  .live t .nil

/-- A body that leaves nothing but its result has it in the lowest slot. -/
theorem pops_result {r : Option ValueType} (h : o.types = r.toList) :
    o.Pops base (r.map fun t ↦ .stack t (base.get t)).toList ⟨[], o.dead⟩ := by
  obtain ⟨types, dead⟩ := o
  subst h
  cases r with
  | none => exact .nil
  | some t =>
    have hpops : Pops base (push ⟨[], dead⟩ t) [next base ⟨[], dead⟩ t] ⟨[], dead⟩ := pops_push _ t
    simpa [next, height, push] using hpops

end BodyState

/-! ## Drafts -/

namespace Scope

def state (s : Scope) : BodyState := ⟨s.types, s.unreachable⟩

/-- What is known of a conditional in the scope `p` while one of its arms is compiled. -/
def Kind.Disciplined (L : Layout) (ls ls' : List Label) (result : Option ValueType) (p : Scope) :
    Kind → Prop
  | .thenArm cond => ∃ o, WasmEngine.Disciplined L ls p.body.toList o ∧
      o.Pops p.base [cond] p.state
  | .elseArm cond thenBody => (∃ o, WasmEngine.Disciplined L ls p.body.toList o ∧
      o.Pops p.base [cond] p.state) ∧
      ∃ e, WasmEngine.Disciplined L ls' thenBody e ∧ e.Ends result
  | _ => True

/-- The scope and those around it keep to the discipline. -/
def Orderly (L : Layout) : Scope → List Scope → Prop
  | s, [] => Disciplined L [] s.body.toList s.state
  | s, p :: outer =>
    Orderly L p outer ∧
      s.kind.Disciplined L (p.labels outer) (s.labels (p :: outer)) s.result p ∧
      Disciplined L (s.labels (p :: outer)) s.body.toList s.state

variable {L L' : Layout} {s s' : Scope} {outer : List Scope}

theorem Orderly.disciplined (h : s.Orderly L outer) :
    Disciplined L (s.labels outer) s.body.toList s.state := by
  cases outer with
  | nil => exact h
  | cons p outer => exact h.2.2

/-- The innermost scope may be replaced by one with the same frame. -/
theorem Orderly.replace (h : s.Orderly L outer) (hframe : s.SameFrame s')
    (hs' : Disciplined L (s.labels outer) s'.body.toList s'.state) : s'.Orderly L outer := by
  cases outer with
  | nil => exact hs'
  | cons p outer =>
    obtain ⟨hp, hkind, -⟩ := h
    refine ⟨hp, ?_, ?_⟩
    · rwa [hframe.kind, hframe.labels_eq, hframe.result]
    · rwa [hframe.labels_eq]

theorem Orderly.mono (hle : L.Le L') (h : s.Orderly L outer) : s.Orderly L' outer := by
  induction outer generalizing s with
  | nil => exact Disciplined.mono hle h
  | cons p outer ih =>
    obtain ⟨hp, hkind, hs⟩ := h
    refine ⟨ih hp, ?_, hs.mono hle⟩
    cases hk : s.kind with
    | thenArm cond =>
      rw [hk] at hkind
      obtain ⟨o, ho, hpops⟩ := hkind
      exact ⟨o, ho.mono hle, hpops⟩
    | elseArm cond thenBody =>
      rw [hk] at hkind
      obtain ⟨⟨o, ho, hpops⟩, e, he, hends⟩ := hkind
      exact ⟨⟨o, ho.mono hle, hpops⟩, e, he.mono hle, hends⟩
    | _ => trivial

/-- The operands of a construct start where those around it end. -/
theorem Nested.floor_labels (h : s.Nested L outer) : Label.floor (s.labels outer) = s.base := by
  cases outer with
  | nil => exact h.2.2.1.symm
  | cons p outer => rfl

/-- The counters of a scope and the types of its operands have the same height. -/
theorem Sound.height_state {ls : List Label} (h : s.Sound L ls) :
    s.state.height s.base = s.height := by
  ext t
  rw [height_get, h.live, BodyState.height, Lanes.get_ofFn, state]

theorem Sound.next_state {ls : List Label} (h : s.Sound L ls) (t : ValueType) :
    s.state.next s.base t = s.nextSlot t := by
  rw [BodyState.next, h.height_state, height_get, nextSlot]

end Scope

namespace Draft

/-- All open scopes keep to the discipline. -/
def Orderly (ctx : Context) (d : Draft) : Prop := d.scope.Orderly (ctx.layout d.maxStack) d.outer

/-- Operands were popped from the slots, and nothing else was done. -/
structure Pops (d : Draft) (slots : List Slot) (d' : Draft) : Prop where
  frame : d.scope.SameFrame d'.scope
  body : d'.scope.body = d.scope.body
  state : d.scope.state.Pops d.scope.base slots d'.scope.state

/-- An operand was pushed to the slot if there is one, and nothing else was done. -/
structure Gains (d : Draft) (slot : Option Slot) (d' : Draft) : Prop where
  frame : d.scope.SameFrame d'.scope
  body : d'.scope.body = d.scope.body
  state : d.scope.state.Gains d.scope.base slot d'.scope.state

variable {d d' d'' : Draft} {slots slots' : List Slot}

theorem Pops.refl (d : Draft) : d.Pops [] d := ⟨⟨rfl, rfl, rfl, rfl⟩, rfl, .nil⟩

theorem Pops.append (h : d.Pops slots d') (h' : d'.Pops slots' d'') :
    d.Pops (slots ++ slots') d'' where
  frame := h.frame.trans h'.frame
  body := h'.body.trans h.body
  state := h.state.append (h.frame.base ▸ h'.state)

theorem Gains.refl (d : Draft) : d.Gains none d := ⟨⟨rfl, rfl, rfl, rfl⟩, rfl, .none⟩

end Draft

namespace Build

open Draft

variable {ctx : Context} {d d' : Draft} {pos : Nat} {slot : Slot} {t : ValueType}

/-- A push gives the next free slot of its lane. -/
theorem push_gains (hd : d.Sound ctx) (h : (push t).run d = .ok slot d') :
    d.Gains (some slot) d' := by
  obtain ⟨rfl, rfl⟩ := push_eq_ok.mp h
  refine ⟨⟨rfl, rfl, rfl, rfl⟩, rfl, ?_⟩
  rw [← (Scope.Nested.sound hd).next_state]
  exact .some t

theorem push?_gains {t : Option ValueType} {slot : Option Slot} (hd : d.Sound ctx)
    (h : (push? t).run d = .ok slot d') : d.Gains slot d' := by
  cases t with
  | none =>
    obtain ⟨rfl, rfl⟩ := run_pure_eq_ok.mp h
    exact .refl d
  | some t =>
    simp only [push?, run_bind_eq_ok, run_pure_eq_ok] at h
    obtain ⟨slot, _, hpush, rfl, rfl⟩ := h
    exact push_gains hd hpush

/-- A pop gives the highest slot of its lane that is in use. -/
theorem pop_pops {expected : Option ValueType} (hd : d.Sound ctx)
    (h : (pop pos expected).run d = .ok (t, slot) d') : d.Pops [slot] d' := by
  have hsound := (pop_advances hd h).1.sound
  obtain ⟨types, htypes, -, rfl, rfl⟩ | ⟨htypes, hdead, -, rfl, rfl⟩ := pop_eq_ok h
  · refine ⟨⟨rfl, rfl, rfl, rfl⟩, rfl, ?_⟩
    have hstate : d.scope.state = (d.scope.popped t).state.push t := by
      simp only [Scope.state, Scope.popped, BodyState.push, htypes, List.tail_cons]
    rw [hstate, ← (Scope.Nested.sound hsound).next_state]
    exact .live t .nil
  · refine ⟨⟨rfl, rfl, rfl, rfl⟩, rfl, ?_⟩
    have hstate : d.scope.state = ⟨[], true⟩ := by
      rw [Scope.state, htypes, hdead]
    rw [← (Scope.Nested.sound hd).next_state, hstate]
    simpa [BodyState.next, BodyState.height] using .dead t .nil

theorem popType_pops (hd : d.Sound ctx) (h : (popType pos t).run d = .ok slot d') :
    d.Pops [slot] d' := by
  simp only [popType, run_bind_eq_ok, run_pure_eq_ok] at h
  obtain ⟨⟨t', _⟩, _, hpop, rfl, rfl⟩ := h
  exact pop_pops hd hpop

theorem pop?_pops {t : Option ValueType} {slot : Option Slot} (hd : d.Sound ctx)
    (h : (pop? pos t).run d = .ok slot d') : d.Pops slot.toList d' := by
  cases t with
  | none =>
    obtain ⟨rfl, rfl⟩ := run_pure_eq_ok.mp h
    exact .refl d
  | some t =>
    simp only [pop?, run_bind_eq_ok, run_pure_eq_ok] at h
    obtain ⟨slot, _, hpop, rfl, rfl⟩ := h
    exact popType_pops hd hpop

/-- Arguments are in the slots that come off, in reverse. -/
theorem popArgs_pops {ts : List ValueType} {slots : List Slot} (hd : d.Sound ctx)
    (h : (popArgs pos ts).run d = .ok slots d') : d.Pops slots.reverse d' := by
  induction ts generalizing d' slots with
  | nil =>
    obtain ⟨rfl, rfl⟩ := run_pure_eq_ok.mp h
    exact .refl d
  | cons t ts ih =>
    simp only [popArgs, run_bind_eq_ok, run_pure_eq_ok] at h
    obtain ⟨rest, d₁, hrest, slot, _, hpop, rfl, rfl⟩ := h
    rw [List.reverse_cons]
    exact (ih hrest).append (popType_pops (popArgs_advances hd hrest).1.sound hpop)

/-- A popped operand leaves its slot to the next one. -/
theorem popType_slot (h : (popType pos t).run d = .ok slot d') : slot = d'.scope.nextSlot t := by
  simp only [popType, run_bind_eq_ok, run_pure_eq_ok] at h
  obtain ⟨⟨t', _⟩, _, hpop, rfl, rfl⟩ := h
  obtain ⟨_, -, hexpected, rfl, rfl⟩ | ⟨-, -, rfl, rfl, rfl⟩ := pop_eq_ok hpop
  · rw [hexpected t rfl]
  · rfl

theorem pop?_slot {t : Option ValueType} {slot : Option Slot}
    (h : (pop? pos t).run d = .ok slot d') : slot = t.map d'.scope.nextSlot := by
  cases t with
  | none =>
    obtain ⟨rfl, rfl⟩ := run_pure_eq_ok.mp h
    rfl
  | some t =>
    simp only [pop?, run_bind_eq_ok, run_pure_eq_ok] at h
    obtain ⟨slot, _, hpop, rfl, rfl⟩ := h
    rw [popType_slot hpop, Option.map_some]

theorem push?_slot {t : Option ValueType} {slot : Option Slot}
    (h : (push? t).run d = .ok slot d') : slot = t.map d.scope.nextSlot := by
  cases t with
  | none =>
    obtain ⟨rfl, rfl⟩ := run_pure_eq_ok.mp h
    rfl
  | some t =>
    simp only [push?, run_bind_eq_ok, run_pure_eq_ok] at h
    obtain ⟨slot, _, hpush, rfl, rfl⟩ := h
    rw [← (push_eq_ok.mp hpush).1, Option.map_some]

theorem push?_state {t : Option ValueType} {slot : Option Slot}
    (h : (push? t).run d = .ok slot d') :
    d'.scope.body = d.scope.body ∧ d'.scope.state = d.scope.state.push? t := by
  cases t with
  | none =>
    obtain ⟨-, rfl⟩ := run_pure_eq_ok.mp h
    exact ⟨rfl, rfl⟩
  | some t =>
    simp only [push?, run_bind_eq_ok, run_pure_eq_ok] at h
    obtain ⟨slot, _, hpush, -, rfl⟩ := h
    obtain ⟨-, rfl⟩ := push_eq_ok.mp hpush
    exact ⟨rfl, rfl⟩

/-- A branch reads what it carries, and only if its target takes something. -/
theorem operand_target {s : Scope} {carried : Option Slot} {R : Slot → ValueType → Prop}
    (h : Option.Rel R carried s.labelType) : (s.target carried).operand = carried := by
  unfold Scope.target
  split
  · rfl
  · rename_i hloop
    simp only [Scope.labelType, hloop] at h
    cases h
    rfl
  · rename_i hfunction hloop
    have htype : s.labelType = s.result := by
      unfold Scope.labelType
      split
      · contradiction
      · rfl
    rw [htype] at h
    cases hresult : s.result with
    | none =>
      rw [hresult] at h
      cases h
      rfl
    | some t =>
      rw [hresult] at h
      cases h
      rfl

end Build

/-! ## Instructions -/

namespace Draft.Orderly

variable {ctx : Context} {d d₁ d₂ d' : Draft} {stmt : Stmt} {slots : List Slot} {u : Unit}

/-- It is enough to look at the innermost scope. -/
theorem advance (ho : d.Orderly ctx) (hadv : Advances ctx d d')
    (h : Disciplined (ctx.layout d'.maxStack) d.labels d.scope.body.toList d.scope.state →
      Disciplined (ctx.layout d'.maxStack) d.labels d'.scope.body.toList d'.scope.state) :
    d'.Orderly ctx := by
  have hscopes := Scope.Orderly.mono hadv.le ho
  unfold Orderly
  rw [hadv.outer]
  exact hscopes.replace hadv.frame (h hscopes.disciplined)

/-- Operands may come off without a statement. -/
theorem pops (ho : d.Orderly ctx) (hd : d.Sound ctx) (hadv : Advances ctx d d')
    (hpops : d.Pops slots d') : d'.Orderly ctx := by
  refine ho.advance hadv fun h ↦ ?_
  rw [hpops.body]
  exact .drop h (by rw [labels, Scope.Nested.floor_labels hd]; exact hpops.state)

/-- A statement that takes what came off and gives what was pushed keeps the discipline. -/
theorem plain (ho : d.Orderly ctx) (hd : d.Sound ctx) (hadv : Advances ctx d d')
    (h : (Build.emit stmt).run d₂ = .ok u d') (hplain : stmt.isPlain = true)
    (hpops : d.Pops stmt.takes d₁) (hgains : d₁.Gains stmt.gives d₂) : d'.Orderly ctx := by
  have hbody := (Scope.Nested.sound hadv.sound).body
  rw [← labels, hadv.labels_eq] at hbody
  refine ho.advance hadv fun h' ↦ ?_
  obtain rfl := Build.emit_eq_ok.mp h
  have hfloor : Label.floor d.labels = d.scope.base := Scope.Nested.floor_labels hd
  have hgains' := hgains.state
  rw [hpops.frame.base, ← hfloor] at hgains'
  have hpops' := hpops.state
  rw [← hfloor] at hpops'
  simp only [Scope.emit, Array.toList_push, hgains.body, hpops.body] at hbody ⊢
  exact .plain h' hplain (hbody stmt (by simp)) hpops' hgains'

/-- So does one behind which code is dead. -/
theorem divert (ho : d.Orderly ctx) (hd : d.Sound ctx) (hadv : Advances ctx d d')
    (h : (do Build.emit stmt; Build.cut).run d₁ = .ok u d') (hdiverts : stmt.Diverts)
    (huniform : stmt.Uniform) (hpops : d.Pops stmt.takes d₁) : d'.Orderly ctx := by
  have hbody := (Scope.Nested.sound hadv.sound).body
  rw [← labels, hadv.labels_eq] at hbody
  refine ho.advance hadv fun h' ↦ ?_
  obtain ⟨_, d₂, hemit, hcut⟩ := run_bind_eq_ok.mp h
  obtain rfl := Build.emit_eq_ok.mp hemit
  obtain rfl := Build.cut_eq_ok.mp hcut
  have hfloor : Label.floor d.labels = d.scope.base := Scope.Nested.floor_labels hd
  have hpops' := hpops.state
  rw [← hfloor] at hpops'
  simp only [Scope.emit, Scope.cut, Array.toList_push, hpops.body] at hbody ⊢
  exact .divert h' hdiverts (hbody stmt (by simp)) huniform hpops'

/-- The operand that was written to a local is dropped at once. -/
theorem localSet {index : Nat} {src : Slot} (ho : d.Orderly ctx) (hd : d.Sound ctx)
    (hadv : Advances ctx d d') (hpops : d.Pops [src] d₁)
    (h : (Build.emit (.copy (.local index) src)).run d₁ = .ok u d') : d'.Orderly ctx := by
  have hbody := (Scope.Nested.sound hadv.sound).body
  rw [← labels, hadv.labels_eq] at hbody
  refine ho.advance hadv fun h' ↦ ?_
  obtain rfl := Build.emit_eq_ok.mp h
  have hfloor : Label.floor d.labels = d.scope.base := Scope.Nested.floor_labels hd
  have hpops' := hpops.state
  rw [← hfloor] at hpops'
  obtain ⟨t, hsrc⟩ := hpops'.eq_next
  simp only [Scope.emit, Array.toList_push, hpops.body] at hbody ⊢
  refine .drop (.plain h' rfl (hbody _ (by simp)) hpops' ?_) (d₁.scope.state.pops_push t)
  rw [Stmt.gives, hsrc]
  exact .some t

end Draft.Orderly

namespace Build

open Draft

variable {ctx : Context} {d d' : Draft} {pos : Nat}

/-- An instruction that opens and closes no scope keeps the discipline, one case for each. -/
theorem step_orderly_plain {i : Instr} {u : Unit} (hi : i.isStructural = false) (hd : d.Sound ctx)
    (ho : d.Orderly ctx) (h : (step ctx pos i).run d = .ok u d') : d'.Orderly ctx := by
  have hadv := step_advances hi hd h
  cases i with
  | block result | loop result | conditional result | otherwise | close => cases hi
  | unreachable => exact ho.divert hd hadv h trivial trivial (.refl d)
  | nop =>
    obtain ⟨-, rfl⟩ := run_pure_eq_ok.mp h
    exact ho
  | br depth =>
    obtain ⟨s, _, hscope, h⟩ := run_bind_eq_ok.mp h
    obtain ⟨hs, rfl⟩ := scopeAt_eq_ok hscope
    obtain ⟨carried, d₁, hpop, h⟩ := run_bind_eq_ok.mp h
    have hoperand := operand_target (pop?_advances hd hpop).2.1
    refine ho.divert hd hadv h trivial trivial ?_
    rw [Stmt.takes, hoperand]
    exact pop?_pops hd hpop
  | brIf depth =>
    obtain ⟨s, _, hscope, h⟩ := run_bind_eq_ok.mp h
    obtain ⟨hs, rfl⟩ := scopeAt_eq_ok hscope
    obtain ⟨cond, d₁, hcond, h⟩ := run_bind_eq_ok.mp h
    obtain ⟨hadv₁, -⟩ := popType_advances hd hcond
    obtain ⟨carried, d₂, hpop, h⟩ := run_bind_eq_ok.mp h
    obtain ⟨hadv₂, hcarried, -⟩ := pop?_advances hadv₁.sound hpop
    obtain ⟨carried', d₃, hpush, h⟩ := run_bind_eq_ok.mp h
    have hsame : carried' = carried := (push?_slot hpush).trans (pop?_slot hpop).symm
    subst hsame
    have hoperand := operand_target hcarried
    have hpops : d.Pops (Stmt.branchIf cond (s.target carried')).takes d₂ := by
      rw [Stmt.takes, hoperand]
      exact (popType_pops hd hcond).append (pop?_pops hadv₁.sound hpop)
    refine ho.plain hd hadv h rfl hpops ?_
    rw [Stmt.gives, hoperand]
    exact push?_gains hadv₂.sound hpush
  | brTable depths default =>
    obtain ⟨s, _, hscope, h⟩ := run_bind_eq_ok.mp h
    obtain ⟨hs, rfl⟩ := scopeAt_eq_ok hscope
    obtain ⟨scopes, _, htable, h⟩ := run_bind_eq_ok.mp h
    obtain ⟨hscopes, rfl⟩ := tableScopes_eq_ok htable
    obtain ⟨index, d₁, hindex, h⟩ := run_bind_eq_ok.mp h
    obtain ⟨hadv₁, -⟩ := popType_advances hd hindex
    obtain ⟨carried, d₂, hpop, h⟩ := run_bind_eq_ok.mp h
    obtain ⟨-, hcarried, -⟩ := pop?_advances hadv₁.sound hpop
    have hoperand := operand_target hcarried
    refine ho.divert hd hadv h trivial (fun target hmem ↦ ?_) ?_
    · obtain ⟨s', hscope, rfl⟩ := List.mem_map.mp hmem
      obtain ⟨depth, -, -, hlabel⟩ := forall₂_exists_left hscopes hscope
      rw [hoperand, operand_target (hlabel ▸ hcarried)]
    · rw [Stmt.takes, hoperand]
      exact (popType_pops hd hindex).append (pop?_pops hadv₁.sound hpop)
  | ret =>
    obtain ⟨value, d₁, hpop, h⟩ := run_bind_eq_ok.mp h
    exact ho.divert hd hadv h trivial trivial (pop?_pops hd hpop)
  | call func =>
    obtain ⟨callee, _, hlook, h⟩ := run_bind_eq_ok.mp h
    obtain ⟨hfunc, rfl⟩ := funcType_eq_ok hlook
    obtain ⟨args, d₁, hpop, h⟩ := run_bind_eq_ok.mp h
    obtain ⟨hadv₁, -⟩ := popArgs_advances hd hpop
    obtain ⟨result, d₂, hpush, h⟩ := run_bind_eq_ok.mp h
    exact ho.plain hd hadv h rfl (popArgs_pops hd hpop) (push?_gains hadv₁.sound hpush)
  | callIndirect type =>
    obtain ⟨_, _, hrequire, h⟩ := run_bind_eq_ok.mp h
    obtain ⟨-, rfl⟩ := requireTable_eq_ok hrequire
    obtain ⟨callee, _, hlook, h⟩ := run_bind_eq_ok.mp h
    obtain ⟨-, rfl⟩ := typeAt_eq_ok hlook
    obtain ⟨index, d₁, hindex, h⟩ := run_bind_eq_ok.mp h
    obtain ⟨hadv₁, -⟩ := popType_advances hd hindex
    obtain ⟨args, d₂, hpop, h⟩ := run_bind_eq_ok.mp h
    obtain ⟨hadv₂, -⟩ := popArgs_advances hadv₁.sound hpop
    obtain ⟨result, d₃, hpush, h⟩ := run_bind_eq_ok.mp h
    exact ho.plain hd hadv h rfl
      ((popType_pops hd hindex).append (popArgs_pops hadv₁.sound hpop))
      (push?_gains hadv₂.sound hpush)
  | drop =>
    obtain ⟨⟨t, slot⟩, d₁, hpop, h⟩ := run_bind_eq_ok.mp h
    obtain ⟨-, rfl⟩ := run_pure_eq_ok.mp h
    have hpop : (pop pos none).run d = .ok (t, slot) d₁ := hpop
    exact ho.pops hd hadv (pop_pops hd hpop)
  | select =>
    obtain ⟨cond, d₁, hcond, h⟩ := run_bind_eq_ok.mp h
    obtain ⟨hadv₁, -⟩ := popType_advances hd hcond
    obtain ⟨⟨t, ifFalse⟩, d₂, hifFalse, h⟩ := run_bind_eq_ok.mp h
    have hifFalse : (pop pos none).run d₁ = .ok (t, ifFalse) d₂ := hifFalse
    obtain ⟨hadv₂, -⟩ := pop_advances hadv₁.sound hifFalse
    obtain ⟨dst, d₃, hdst, h⟩ := run_bind_eq_ok.mp h
    obtain ⟨hadv₃, -⟩ := popType_advances hadv₂.sound hdst
    obtain ⟨dst', d₄, hpush, h⟩ := run_bind_eq_ok.mp h
    have hsame : dst' = dst := (push_eq_ok.mp hpush).1.symm.trans (popType_slot hdst).symm
    subst hsame
    exact ho.plain hd hadv h rfl
      (((popType_pops hd hcond).append (pop_pops hadv₁.sound hifFalse)).append
        (popType_pops hadv₂.sound hdst)) (push_gains hadv₃.sound hpush)
  | localGet index =>
    obtain ⟨t, _, hlook, h⟩ := run_bind_eq_ok.mp h
    obtain ⟨-, rfl⟩ := localType_eq_ok hlook
    obtain ⟨dst, d₁, hpush, h⟩ := run_bind_eq_ok.mp h
    obtain rfl := (push_eq_ok.mp hpush).1
    exact ho.plain hd hadv h rfl (.refl d) (push_gains hd hpush)
  | localSet index =>
    obtain ⟨t, _, hlook, h⟩ := run_bind_eq_ok.mp h
    obtain ⟨-, rfl⟩ := localType_eq_ok hlook
    obtain ⟨src, d₁, hpop, h⟩ := run_bind_eq_ok.mp h
    exact ho.localSet hd hadv (popType_pops hd hpop) h
  | localTee index =>
    obtain ⟨t, _, hlook, h⟩ := run_bind_eq_ok.mp h
    obtain ⟨-, rfl⟩ := localType_eq_ok hlook
    obtain ⟨src, d₁, hpop, h⟩ := run_bind_eq_ok.mp h
    obtain ⟨hadv₁, -⟩ := popType_advances hd hpop
    obtain ⟨src', d₂, hpush, h⟩ := run_bind_eq_ok.mp h
    have hsame : src' = src := (push_eq_ok.mp hpush).1.symm.trans (popType_slot hpop).symm
    subst hsame
    exact ho.plain hd hadv h rfl (popType_pops hd hpop) (push_gains hadv₁.sound hpush)
  | globalGet index =>
    obtain ⟨g, _, hlook, h⟩ := run_bind_eq_ok.mp h
    obtain ⟨-, rfl⟩ := globalType_eq_ok hlook
    obtain ⟨dst, d₁, hpush, h⟩ := run_bind_eq_ok.mp h
    exact ho.plain hd hadv h rfl (.refl d) (push_gains hd hpush)
  | globalSet index =>
    obtain ⟨g, _, hlook, h⟩ := run_bind_eq_ok.mp h
    obtain ⟨-, rfl⟩ := globalType_eq_ok hlook
    dsimp only at h
    rw [run_ite] at h
    split at h
    · simp only [run_bind_eq_ok, run_fail_eq_ok, false_and, exists_false] at h
    · obtain ⟨src, d₁, hpop, h⟩ := run_bind_eq_ok.mp h
      exact ho.plain hd hadv h rfl (popType_pops hd hpop) (.refl d₁)
  | load access arg =>
    obtain ⟨_, _, hcheck, h⟩ := run_bind_eq_ok.mp h
    obtain ⟨-, rfl⟩ := checkAccess_eq_ok hcheck
    obtain ⟨addr, d₁, hpop, h⟩ := run_bind_eq_ok.mp h
    obtain ⟨hadv₁, -⟩ := popType_advances hd hpop
    obtain ⟨dst, d₂, hpush, h⟩ := run_bind_eq_ok.mp h
    exact ho.plain hd hadv h rfl (popType_pops hd hpop) (push_gains hadv₁.sound hpush)
  | store access arg =>
    obtain ⟨_, _, hcheck, h⟩ := run_bind_eq_ok.mp h
    obtain ⟨-, rfl⟩ := checkAccess_eq_ok hcheck
    obtain ⟨value, d₁, hvalue, h⟩ := run_bind_eq_ok.mp h
    obtain ⟨hadv₁, -⟩ := popType_advances hd hvalue
    obtain ⟨addr, d₂, haddr, h⟩ := run_bind_eq_ok.mp h
    exact ho.plain hd hadv h rfl
      ((popType_pops hd hvalue).append (popType_pops hadv₁.sound haddr)) (.refl d₂)
  | memorySize =>
    obtain ⟨_, _, hrequire, h⟩ := run_bind_eq_ok.mp h
    obtain ⟨-, rfl⟩ := requireMemory_eq_ok hrequire
    obtain ⟨dst, d₁, hpush, h⟩ := run_bind_eq_ok.mp h
    exact ho.plain hd hadv h rfl (.refl d) (push_gains hd hpush)
  | memoryGrow =>
    obtain ⟨_, _, hrequire, h⟩ := run_bind_eq_ok.mp h
    obtain ⟨-, rfl⟩ := requireMemory_eq_ok hrequire
    obtain ⟨delta, d₁, hpop, h⟩ := run_bind_eq_ok.mp h
    obtain ⟨hadv₁, -⟩ := popType_advances hd hpop
    obtain ⟨dst, d₂, hpush, h⟩ := run_bind_eq_ok.mp h
    exact ho.plain hd hadv h rfl (popType_pops hd hpop) (push_gains hadv₁.sound hpush)
  | const value =>
    obtain ⟨dst, d₁, hpush, h⟩ := run_bind_eq_ok.mp h
    exact ho.plain hd hadv h rfl (.refl d) (push_gains hd hpush)
  | unary op =>
    obtain ⟨operand, d₁, hpop, h⟩ := run_bind_eq_ok.mp h
    obtain ⟨hadv₁, -⟩ := popType_advances hd hpop
    obtain ⟨dst, d₂, hpush, h⟩ := run_bind_eq_ok.mp h
    exact ho.plain hd hadv h rfl (popType_pops hd hpop) (push_gains hadv₁.sound hpush)
  | binary op =>
    obtain ⟨rhs, d₁, hrhs, h⟩ := run_bind_eq_ok.mp h
    obtain ⟨hadv₁, -⟩ := popType_advances hd hrhs
    obtain ⟨lhs, d₂, hlhs, h⟩ := run_bind_eq_ok.mp h
    obtain ⟨hadv₂, -⟩ := popType_advances hadv₁.sound hlhs
    obtain ⟨dst, d₃, hpush, h⟩ := run_bind_eq_ok.mp h
    exact ho.plain hd hadv h rfl ((popType_pops hd hrhs).append (popType_pops hadv₁.sound hlhs))
      (push_gains hadv₂.sound hpush)

theorem ends_of_checkEnd {s : Scope} {u : Unit} (h : (checkEnd pos s).run d = .ok u d') :
    s.state.Ends s.result := by
  obtain ⟨-, ⟨hresult, htypes⟩ | ⟨t, hresult, htypes⟩ | ⟨hdead, htypes⟩⟩ := checkEnd_eq_ok h
  · exact .inl (by rw [hresult]; exact htypes)
  · exact .inl (by rw [hresult]; exact htypes)
  · exact .inr ⟨hdead, htypes⟩

/-- Both arms of a conditional start with the same operands. -/
theorem beginElse_orderly {u : Unit} (ho : d.Orderly ctx) (hd : d.Sound ctx)
    (h : (beginElse pos).run d = .ok u d') : d'.Orderly ctx := by
  have hends : d.scope.state.Ends d.scope.result := by
    simp only [beginElse, run_bind_eq_ok, run_get_eq_ok] at h
    obtain ⟨_, _, ⟨rfl, rfl⟩, h⟩ := h
    split at h
    · obtain ⟨_, _, hend, -⟩ := run_bind_eq_ok.mp h
      exact ends_of_checkEnd hend
    · exact (run_fail_eq_ok.mp h).elim
  obtain ⟨cond, hkind, -, rfl⟩ := beginElse_eq_ok h
  obtain ⟨s, outer, maxStack⟩ := d
  change s.kind = .thenArm cond at hkind
  cases outer with
  | nil => exact absurd (hd.1.symm.trans hkind) (by simp)
  | cons p outer =>
    obtain ⟨hp, hcond, hs⟩ := ho
    rw [hkind] at hcond
    simp only [Scope.labels, Scope.asLabel, hkind, Scope.Kind.isLoop] at hs
    exact ⟨hp, ⟨hcond, s.state, hs, hends⟩, .nil⟩

/-- A scope that is closed becomes a statement of the scope around it. -/
theorem closed_disciplined {L : Layout} {s p : Scope} {outer : List Scope} {stmt : Stmt}
    (hs : s.Nested L (p :: outer)) (ho : s.Orderly L (p :: outer)) (hends : s.state.Ends s.result)
    (h : (closed s).run d = .ok stmt d') :
    Disciplined L (p.labels outer) (p.body.toList ++ [stmt]) (p.state.push? s.result) := by
  obtain ⟨hp, hfunction, hnumber, hbase, hs⟩ := hs
  obtain ⟨hop, hkind, hbody⟩ := ho
  have hlabel : s.label = (p.labels outer).length + 1 := by
    rw [hnumber, Scope.length_labels]
  have hfloor := hp.floor_labels
  have hheight : s.base = p.state.height (Label.floor (p.labels outer)) := by
    rw [hbase, hfloor, hp.sound.height_state]
  have hfits := hs.kind
  have hparent := hop.disciplined
  unfold closed at h
  simp only [Scope.labels, Scope.asLabel, hheight] at hbody hkind
  cases hk : s.kind with
  | function => contradiction
  | block =>
    simp only [hk, run_pure_eq_ok] at h
    obtain ⟨rfl, -⟩ := h
    rw [hk] at hbody
    rw [hlabel]
    exact .block s.result hparent hbody hends
  | loop =>
    simp only [hk, run_pure_eq_ok] at h
    obtain ⟨rfl, -⟩ := h
    rw [hk] at hbody
    rw [hlabel]
    exact .loop s.result hparent hbody hends
  | thenArm cond =>
    simp only [hk, run_ite] at h
    split at h
    · exact (run_fail_eq_ok.mp h).elim
    · rename_i hresult
      obtain ⟨rfl, -⟩ := run_pure_eq_ok.mp h
      rw [hk] at hbody hkind hfits
      obtain ⟨o, ho, hpops⟩ := hkind
      have hnone : (BodyState.mk [] false).Ends s.result := by
        rw [Option.not_isSome_iff_eq_none.mp hresult]
        exact .inl rfl
      rw [hlabel]
      exact .conditional s.result ho hfits (hfloor ▸ hpops) hbody hends .nil hnone
  | elseArm cond thenBody =>
    simp only [hk, run_pure_eq_ok] at h
    obtain ⟨rfl, -⟩ := h
    rw [hk] at hbody hkind hfits
    obtain ⟨⟨o, ho, hpops⟩, e, hthen, hends'⟩ := hkind
    rw [hlabel]
    exact .conditional s.result ho hfits.1 (hfloor ▸ hpops) hthen hends' hbody hends

/-- A construct leaves its result in the slot where its branches leave theirs. -/
theorem endScope_orderly {parent : Scope} {outer : List Scope} {u : Unit} (hd : d.Sound ctx)
    (ho : d.Orderly ctx) (houter : d.outer = parent :: outer)
    (h : (endScope pos d.scope parent outer).run d = .ok u d') : d'.Orderly ctx := by
  simp only [endScope, run_bind_eq_ok, run_modify_eq_ok, run_pure_eq_ok] at h
  obtain ⟨_, _, hend, stmt, _, hclosed, _, _, rfl, _, d₁, hemit, _, _, hpush, -, rfl⟩ := h
  obtain ⟨rfl, -⟩ := checkEnd_eq_ok hend
  unfold Draft.Sound at hd
  unfold Draft.Orderly at ho
  rw [houter] at hd ho
  obtain ⟨rfl, hstmt⟩ := closed_fits hd hclosed
  have hparent : ({ d with scope := parent, outer } : Draft).Sound ctx := hd.1
  have horderly : ({ d with scope := parent, outer } : Draft).Orderly ctx := ho.1
  have hadv := emit_advances hparent hstmt hemit
  have hadv' := hadv.trans (push?_advances hadv.sound hpush).1
  refine horderly.advance hadv' fun _ ↦ ?_
  obtain ⟨hbody, hstate⟩ := push?_state hpush
  obtain rfl := emit_eq_ok.mp hemit
  rw [hbody, hstate, Scope.emit, Array.toList_push]
  exact (closed_disciplined hd ho (ends_of_checkEnd hend) hclosed).mono hadv'.le

/-- Every instruction that compiles keeps to the discipline. -/
theorem step_orderly {i : Instr} {u : Unit} (hd : d.Sound ctx) (ho : d.Orderly ctx)
    (h : (step ctx pos i).run d = .ok u d') : d'.Orderly ctx := by
  cases i with
  | block result =>
    obtain rfl := openScope_eq_ok h
    exact ⟨ho, trivial, .nil⟩
  | loop result =>
    obtain rfl := openScope_eq_ok h
    exact ⟨ho, trivial, .nil⟩
  | conditional result =>
    obtain ⟨cond, d₁, hcond, h⟩ := run_bind_eq_ok.mp h
    obtain ⟨hadv, -⟩ := popType_advances hd hcond
    have hpops := popType_pops hd hcond
    obtain rfl := openScope_eq_ok h
    refine ⟨ho.pops hd hadv hpops, ⟨d.scope.state, ?_, ?_⟩, .nil⟩
    · rw [hpops.body, hadv.outer, hpops.frame.labels_eq]
      exact (Scope.Orderly.disciplined ho).mono hadv.le
    · rw [hpops.frame.base]
      exact hpops.state
  | otherwise => exact beginElse_orderly ho hd h
  | close =>
    obtain ⟨-, rfl⟩ | ⟨parent, outer, houter, h⟩ := closeScope_eq_ok h
    · exact ho
    · exact endScope_orderly hd ho houter h
  | _ => exact step_orderly_plain rfl hd ho h

/-- A finished function returns at its end, if control gets there. -/
theorem finish_disciplined {body : List Stmt} (hd : d.Sound ctx) (ho : d.Orderly ctx)
    (houter : d.outer = []) (h : (finish pos).run d = .ok body d') :
    ∃ types, Disciplined (ctx.layout d'.maxStack) [] body ⟨types, true⟩ := by
  obtain ⟨rfl, hfits, -⟩ := finish_fits hd houter h
  unfold Draft.Orderly at ho
  unfold Draft.Sound at hd
  rw [houter] at ho hd
  simp only [finish, run_bind_eq_ok, run_get_eq_ok] at h
  obtain ⟨_, _, ⟨rfl, rfl⟩, _, _, hend, h⟩ := h
  have hends := ends_of_checkEnd hend
  obtain ⟨rfl, -⟩ := checkEnd_eq_ok hend
  rw [run_ite] at h
  split at h
  · rename_i hdead
    obtain ⟨rfl, -⟩ := run_pure_eq_ok.mp h
    refine ⟨d.scope.types, ?_⟩
    rw [← hdead]
    exact ho
  · rename_i hlive
    obtain ⟨rfl, -⟩ := run_pure_eq_ok.mp h
    obtain htypes | ⟨hdead, -⟩ := hends
    · rw [Scope.emit, Array.toList_push] at hfits ⊢
      have hpops : d.scope.state.Pops d.scope.base (d.scope.result.map d.scope.outputSlot).toList
          ⟨[], d.scope.unreachable⟩ := BodyState.pops_result htypes
      rw [hd.2.2.1] at hpops
      exact ⟨[], .divert ho trivial (hfits _ (by simp)) trivial hpops⟩
    · exact absurd hdead hlive

end Build

/-! ## Functions -/

theorem Draft.start_orderly (ctx : Context) (offset : Nat) :
    (Draft.start ctx.type offset).Orderly ctx := .nil

/-- All code that is compiled keeps the discipline, by induction on its instructions. -/
theorem Compiles.disciplined {ctx : Context} {d : Draft} {is : List Instr}
    {out : List Stmt × Lanes Nat} (h : Compiles ctx d is out) (hd : d.Sound ctx)
    (ho : d.Orderly ctx) : ∃ types, Disciplined (ctx.layout out.2) [] out.1 ⟨types, true⟩ := by
  induction h with
  | finish houter h => exact Build.finish_disciplined hd ho houter h
  | step _ h _ ih => exact ih (Build.step_sound hd h).1 (Build.step_orderly hd ho h)

/-- Every function that is compiled, in whatever module and from whatever bytes, is well formed
throughout: each statement at any depth refers only to what exists and has the right type, and
operands are found where they were put. -/
theorem Reader.code_disciplined {config : Config} {m : Module} {type : FuncType}
    {decls : List (Nat × ValueType)} {c c' : Cursor} {code : Code}
    (h : (Reader.code config m type decls).run c = .ok code c') :
    code.type = type ∧
    code.locals = type.params ++ decls.flatMap (fun decl ↦ List.replicate decl.1 decl.2) ∧
    code.localSlots = Lanes.count code.locals ∧
    (∀ stmt ∈ code.body, stmt.Fits ⟨m, code.locals, type.result, code.stackSlots⟩ []) ∧
    ∃ types, Disciplined ⟨m, code.locals, type.result, code.stackSlots⟩ [] code.body
      ⟨types, true⟩ := by
  simp only [Reader.code, offset, run_bind_eq_ok, run_get_eq_ok, run_pure_eq_ok, run_ite] at h
  obtain ⟨start, _, ⟨_, _, ⟨rfl, rfl⟩, rfl, rfl⟩, h⟩ := h
  split at h
  · simp only [failAt, run_bind_eq_ok, run_throw_eq_ok, false_and, exists_false] at h
  · simp only [run_bind_eq_ok, run_get_eq_ok, run_pure_eq_ok, Prod.exists] at h
    obtain ⟨_, _, ⟨rfl, rfl⟩, body, slots, _, hinstructions, rfl, rfl⟩ := h
    obtain ⟨is, -, hcompiles⟩ := instructions_compile (Draft.start_sound _ _) hinstructions
    obtain ⟨types, hdisciplined⟩ :=
      hcompiles.disciplined (Draft.start_sound _ _) (Draft.start_orderly _ _)
    exact ⟨rfl, rfl, rfl, hdisciplined.fits, types, hdisciplined⟩

/-- A body in which a branch carries an operand down to the place of the result of its block. The
addition after the branch cannot be reached, and the one after the block reads that place. -/
def carryingBody : List UInt8 :=
  [0x41, 7, 0x02, 0x7f, 0x41, 1, 0x41, 2, 0x0c, 0, 0x6a, 0x0b, 0x6a, 0x0b]

/-- The body compiles to the expected statements, and they keep to the discipline. -/
theorem carryingBody_disciplined :
    ∃ code c', (Reader.code {} {} ⟨[], [.i32]⟩ []).run ⟨0, carryingBody⟩ = .ok code c' ∧
      code.listing = ["const i32.0 i32:7", "block 1", "const i32.1 i32:1", "const i32.2 i32:2",
        "br break:1:i32.2>i32.1", "I32Add i32.1 i32.1 i32.1", "end", "I32Add i32.0 i32.0 i32.1",
        "return i32.0"] ∧
      ∃ types, Disciplined ⟨{}, code.locals, some .i32, code.stackSlots⟩ [] code.body
        ⟨types, true⟩ := by
  have hrun : ((Reader.code {} {} ⟨[], [.i32]⟩ []).run' ⟨0, carryingBody⟩).map Code.listing =
      some ["const i32.0 i32:7", "block 1", "const i32.1 i32:1", "const i32.2 i32:2",
        "br break:1:i32.2>i32.1", "I32Add i32.1 i32.1 i32.1", "end", "I32Add i32.0 i32.0 i32.1",
        "return i32.0"] := by
    decide +kernel
  obtain ⟨code, hcode, hlisting⟩ := Option.map_eq_some_iff.mp hrun
  obtain ⟨c', hcode⟩ := exists_run_of_run' hcode
  obtain ⟨-, -, -, -, hdisciplined⟩ := Reader.code_disciplined hcode
  exact ⟨code, c', hcode, hlisting, hdisciplined⟩

end WasmEngine
