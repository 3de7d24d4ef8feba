import WasmEngine.Proofs.Instantiation
import WasmEngine.Proofs.Lockstep
import WasmEngine.Proofs.Safety

/-!
# Compiled code means what its body means

A call of a function of a decoded module, run as compiled statements over slots, has the same
outcome as the instructions of its body run over an operand stack: the same value or the same trap,
with the same store, or neither ever ends. Functions that it calls are run in the same two ways, and
count toward the same depth of calls; functions of the host do the same on both sides.
-/

namespace WasmEngine

namespace Engine

section

variable {A W : Type} {E : Engine A W} {m m' : Machine A W}

theorem run_of_next (h : E.next m = .next m') (fuel : Nat) :
    E.run (fuel + 1) m = E.run fuel m' := by
  rw [run, h]

theorem run_of_done {r : Except Trap Answer} {s : Store} (h : E.next m = .done r s) (fuel : Nat) :
    E.run (fuel + 1) m = some (r, s) := by
  rw [run, h]

/-- The operation comes to the result `a`, and leaves the store `s`. -/
def Ends {α : Type} (E : Engine A W) (base : Nat) (o : Operation α × Store) (a : α) (s : Store) :
    Prop := ∃ fuel, E.complete fuel base o = some (a, s)

def Diverges {α : Type} (E : Engine A W) (base : Nat) (o : Operation α × Store) : Prop :=
  ∀ fuel, E.complete fuel base o = none

theorem diverges_iff {α : Type} {base : Nat} {o : Operation α × Store} :
    E.Diverges base o ↔ ∀ a s, ¬E.Ends base o a s := by
  constructor
  · rintro h a s ⟨fuel, hfuel⟩
    rw [h fuel] at hfuel
    cases hfuel
  · intro h fuel
    cases hfuel : E.complete fuel base o with
    | none => rfl
    | some x => exact (h x.1 x.2 ⟨fuel, hfuel⟩).elim

theorem ends_running_iff {α : Type} {base : Nat} {e : Except Trap Entry}
    {finish : Except Trap Answer → α} {s s' : Store} {a : α} :
    E.Ends base (.running e finish, s) a s' ↔ ∃ r t, finish r = a ∧
      { t with depth := base } = s' ∧ ∃ fuel, E.run fuel ⟨s, E.begin s e, []⟩ = some (r, t) := by
  constructor
  · rintro ⟨fuel, hfuel⟩
    obtain ⟨⟨r, t⟩, hrun, hr⟩ := Option.bind_eq_some_iff.mp hfuel
    cases hr
    exact ⟨r, t, rfl, rfl, fuel, hrun⟩
  · rintro ⟨r, t, rfl, rfl, fuel, hrun⟩
    exact ⟨fuel, Option.bind_eq_some_iff.mpr ⟨(r, t), hrun, rfl⟩⟩

end

variable {l : Listing} {base : Option FuncType} {m : Machine Stacked.Activation Stacked.Waiting}
  {m' : Machine Activation Suspended} {x : Except Trap Answer × Store} {fuel : Nat}

/-- Compiled code comes to the outcome of the instructions. -/
theorem run_compiled (hsound : m'.Sound base) (h : m.Aligned m')
    (hrun : (stacked l).run fuel m = some x) : ∃ fuel', compiled.run fuel' m' = some x := by
  induction fuel generalizing m m' with
  | zero => cases hrun
  | succ fuel ih =>
    cases stepsWith l hsound h with
    | none hnext _ h =>
      rw [run_of_next hnext] at hrun
      exact ih hsound h hrun
    | one hnext hnext' h =>
      rw [run_of_next hnext] at hrun
      obtain ⟨fuel', hfuel⟩ := ih (next_follows hsound hnext').sound h hrun
      exact ⟨fuel' + 1, by rw [run_of_next hnext', hfuel]⟩
    | two hnext hnext' hnext'' h =>
      rw [run_of_next hnext] at hrun
      have hsound' := (next_follows hsound hnext').sound
      obtain ⟨fuel', hfuel⟩ := ih (next_follows hsound' hnext'').sound h hrun
      exact ⟨fuel' + 2, by rw [run_of_next hnext', run_of_next hnext'', hfuel]⟩
    | done hdone hdone' =>
      rw [run_of_done hdone] at hrun
      exact ⟨1, by rw [run_of_done hdone', hrun]⟩

/-- Instructions come to the outcome of compiled code. -/
theorem run_stacked (hsound : m'.Sound base) (h : m.Aligned m')
    (hrun : compiled.run fuel m' = some x) : ∃ fuel', (stacked l).run fuel' m = some x := by
  induction fuel using Nat.strongRecOn generalizing m m' with
  | ind fuel ih =>
    -- Only instructions that are ahead can be passed over while compiled code stands still.
    induction hahead : m.ahead using Nat.strongRecOn generalizing m with
    | ind k ihk =>
      subst hahead
      cases stepsWith l hsound h with
      | none hnext hlt h =>
        obtain ⟨fuel', hfuel⟩ := ihk _ hlt h rfl
        exact ⟨fuel' + 1, by rw [run_of_next hnext, hfuel]⟩
      | one hnext hnext' h =>
        cases fuel with
        | zero => cases hrun
        | succ fuel =>
          rw [run_of_next hnext'] at hrun
          have hsound' := (next_follows hsound hnext').sound
          obtain ⟨fuel', hfuel⟩ := ih fuel (by omega) hsound' h hrun
          exact ⟨fuel' + 1, by rw [run_of_next hnext, hfuel]⟩
      | two hnext hnext' hnext'' h =>
        match fuel, hrun with
        | 1, hrun =>
          rw [run_of_next hnext'] at hrun
          cases hrun
        | fuel + 2, hrun =>
          rw [run_of_next hnext', run_of_next hnext''] at hrun
          have hsound' := (next_follows hsound hnext').sound
          obtain ⟨fuel', hfuel⟩ :=
            ih fuel (by omega) (next_follows hsound' hnext'').sound h hrun
          exact ⟨fuel' + 1, by rw [run_of_next hnext, hfuel]⟩
      | done hdone hdone' =>
        cases fuel with
        | zero => cases hrun
        | succ fuel =>
          rw [run_of_done hdone'] at hrun
          exact ⟨1, by rw [run_of_done hdone, hrun]⟩

/-- An operation has the same outcome on both machines. -/
theorem ends_compiled_iff (l : Listing) {α : Type} {s s' : Store}
    {F : Except Trap Answer → α → Prop} {o : Operation α × Store} (ho : OperationFits s F o)
    (base : Nat) (a : α) : compiled.Ends base o a s' ↔ (stacked l).Ends base o a s' := by
  cases ho with
  | settled hkept => rfl
  | @running s₀ type e finish hkept he _ =>
    have hsound : Machine.Sound type ⟨s₀, compiled.begin s₀ e, []⟩ :=
      ⟨hkept.wellFormed, type, he.control hkept.wellFormed, .nil⟩
    have haligned : Machine.Aligned ⟨s₀, (stacked l).begin s₀ e, []⟩
        ⟨s₀, compiled.begin s₀ e, []⟩ :=
      .mk (he.tracks l hkept.wellFormed) .nil
    rw [ends_running_iff, ends_running_iff]
    constructor
    · rintro ⟨r, t, hr, ht, fuel, hrun⟩
      exact ⟨r, t, hr, ht, run_stacked hsound haligned hrun⟩
    · rintro ⟨r, t, hr, ht, fuel, hrun⟩
      exact ⟨r, t, hr, ht, run_compiled hsound haligned hrun⟩

theorem diverges_compiled_iff (l : Listing) {α : Type} {s : Store}
    {F : Except Trap Answer → α → Prop} {o : Operation α × Store} (ho : OperationFits s F o)
    (base : Nat) : compiled.Diverges base o ↔ (stacked l).Diverges base o := by
  simp only [diverges_iff, ends_compiled_iff l ho]

end Engine

/-! ## Functions of a module -/

theorem Operation.mistyped?_eq_none {args : List Value} (k : Nat) :
    mistyped? k args (args.map Value.type) = none := by
  induction args generalizing k with
  | nil => rfl
  | cons v args ih => rw [List.map_cons, mistyped?, if_pos rfl, ih]

/-- A call of compiled code with arguments of its types begins, if there is room for one more. -/
theorem Operation.callValues_eq {s : Store} {addr inst : Nat} {code : Code} {args : List Value}
    (hfunc : s.funcs[addr]? = some (.code inst code))
    (hargs : args.map Value.type = code.type.params) (hdepth : s.depth < s.config.maxCallDepth) :
    callValues s (s.ref addr) args =
      (.running (.ok (.code addr inst code args)) (· >>= Answer.toValue),
        { s with depth := s.depth + 1 }) := by
  have hresolve : s.resolve (s.ref addr : Ref .func) = some addr := if_pos rfl
  have hlength : args.length = code.type.params.length := by rw [← hargs, List.length_map]
  have htype : (Callable.code inst code).type? = some code.type := rfl
  have hfuncAt : (Exec.funcAt addr).run s = .ok (.code inst code) s := by
    simp only [Exec.funcAt, EStateM.run_bind, EStateM.run_get, hfunc, Exec.found_some,
      EStateM.run_pure]
  have hpush : Exec.pushDepth.run s = .ok () { s with depth := s.depth + 1 } := by
    simp only [Exec.pushDepth, EStateM.run_bind, EStateM.run_get, if_neg (Nat.not_le.mpr hdepth)]
    rfl
  have henter : (Exec.enter none addr args).run s =
      .ok (.code addr inst code args) { s with depth := s.depth + 1 } :=
    run_bind_eq_ok.mpr ⟨_, _, hfuncAt, run_bind_eq_ok.mpr ⟨_, _, hpush, rfl⟩⟩
  simp only [callValues, hresolve, hfunc, htype, hlength, ne_eq, not_true, if_false, ← hargs,
    mistyped?_eq_none, Exec.begin, henter]

/-- Every function of a decoded module has a body. -/
theorem Module.Decoded.exists_lists {m : Module} (hm : m.Decoded) {code : Code}
    (hcode : code ∈ m.code) : ∃ is, m.Lists code is := by
  obtain ⟨config, bytes, hdecode⟩ := hm
  obtain ⟨-, bs, hbodies, hall⟩ := Module.decode_eq_ok hdecode
  obtain ⟨k, hk⟩ := List.mem_iff_getElem?.mp hcode
  obtain ⟨is, his, -⟩ := forall₂_getElem?_left hall hk
  exact ⟨is, config, bytes, bs, k, hdecode, hbodies, hk, his⟩

/-- Some listing has the body at the address. -/
theorem Module.Lists.exists_listing {m : Module} {code : Code} {is : List Instr}
    (h : m.Lists code is) (addr : Nat) : ∃ l : Listing, l.body addr m code = is := by
  have hbody : ∀ (a : Nat) (m' : Module) (c : Code), ∃ is',
      (m'.Decoded → c ∈ m'.code → m'.Lists c is') ∧ (a = addr ∧ m' = m ∧ c = code → is' = is) := by
    intro a m' c
    by_cases hat : a = addr ∧ m' = m ∧ c = code
    · obtain ⟨rfl, rfl, rfl⟩ := hat
      exact ⟨is, fun _ _ ↦ h, fun _ ↦ rfl⟩
    · by_cases hc : m'.Decoded ∧ c ∈ m'.code
      · obtain ⟨is', his'⟩ := hc.1.exists_lists hc.2
        exact ⟨is', fun _ _ ↦ his', fun h ↦ (hat h).elim⟩
      · exact ⟨[], fun hm hcode ↦ (hc ⟨hm, hcode⟩).elim, fun h ↦ (hat h).elim⟩
  choose body hlists hat using hbody
  exact ⟨⟨body, fun a {m c} hm hc ↦ hlists a m c hm hc⟩, hat addr m code ⟨rfl, rfl, rfl⟩⟩

/-- In every well-formed store, a function of an instance of a decoded module, called with arguments
of its types, has the same outcome as its body in the binary, whatever listing gives the bodies of
the functions that it calls. The call starts at the first instruction, with the arguments and then
zeros as locals, unless too many calls are in progress. -/
theorem Store.WellFormed.compiled_iff_stacked {s : Store} (hs : s.WellFormed) {config : Config}
    {bytes : List UInt8} {m : Module} (hdecode : Module.decode config bytes = .ok m)
    {bs : List (List Instr)} (hbodies : Module.bodies bytes = .ok bs) {k : Nat} {code : Code}
    (hcode : m.code[k]? = some code) {is : List Instr} (his : bs[k]? = some is) {inst : Nat}
    {i : Instance} (hi : s.instances[inst]? = some i) (hm : i.module = m) {addr : Nat}
    (haddr : i.funcs[m.importedFuncs.length + k]? = some addr) {args : List Value}
    (hargs : args.map Value.type = code.type.params) :
    (∃ l : Listing, l.body addr m code = is) ∧ ∀ l : Listing, l.body addr m code = is →
      (s.depth < s.config.maxCallDepth → ∃ s₁ e,
        Operation.callValues s (s.ref addr) args = (.running e (· >>= Answer.toValue), s₁) ∧
        Engine.compiled.begin s₁ e = .code (Activation.start inst code args) ∧
        (Engine.stacked l).begin s₁ e = .code
          ⟨inst, code.type.result, (Slots.initialLocals code.locals args).toArray, [], [], is⟩) ∧
      (∀ r s', Engine.compiled.Ends s.depth (Operation.callValues s (s.ref addr) args) r s' ↔
        (Engine.stacked l).Ends s.depth (Operation.callValues s (s.ref addr) args) r s') ∧
      (Engine.compiled.Diverges s.depth (Operation.callValues s (s.ref addr) args) ↔
        (Engine.stacked l).Diverges s.depth (Operation.callValues s (s.ref addr) args)) := by
  subst hm
  have hlists : i.module.Lists code is := ⟨config, bytes, bs, k, hdecode, hbodies, hcode, his⟩
  refine ⟨hlists.exists_listing addr, ?_⟩
  rintro l rfl
  obtain ⟨addr', haddr', hfunc⟩ := (hs.instances hi).defined k code hcode
  obtain rfl := Option.some.inj (haddr.symm.trans haddr')
  have hfits := Operation.callValues_fits (f := s.ref addr) hs args
  refine ⟨fun hdepth ↦ ?_, fun r s' ↦ ?_, ?_⟩
  · refine ⟨_, _, Operation.callValues_eq hfunc hargs hdepth, rfl, ?_⟩
    simp only [Engine.begin, Engine.stacked, Listing.start, hi]
  · exact Engine.ends_compiled_iff l hfits s.depth r
  · exact Engine.diverges_compiled_iff l hfits s.depth

/-- A call that branches out of a block and carries its argument: both ways end with it. -/
theorem branching_call_same_outcome :
    ∃ r s m bs code l s', Store.load 1 { id := 0 } branchBinary = some (r, s) ∧
      Module.decode {} branchBinary = .ok m ∧ Module.bodies branchBinary = .ok bs ∧
      m.code[0]? = some code ∧ bs[0]? = some (Listing.body l 0 m code) ∧
      bs = [[.block (some .i32), .localGet 0, .localGet 0, .brIf 0, .drop, .const (.i32 5), .close,
        .close]] ∧
      Engine.compiled.Ends s.depth (Operation.callValues s (s.ref 0) [.i32 7])
        (.ok (some (.i32 7))) s' ∧
      (Engine.stacked l).Ends s.depth (Operation.callValues s (s.ref 0) [.i32 7])
        (.ok (some (.i32 7))) s' := by
  have hmade : (Store.load 1 { id := 0 } branchBinary).map Prod.fst = some (.ok ⟨0, 0⟩) := by
    decide +kernel
  have hcall : ((Store.load 1 { id := 0 } branchBinary).bind fun (_, s) ↦
      s.instances[0]?.bind fun i ↦ i.module.code[0]?.map fun code ↦
        (code.type.params, i.funcs[i.module.importedFuncs.length]?,
          (s.callValues 20 (s.ref 0) [.i32 7]).map Prod.fst)) =
      some ([.i32], some 0, some (.ok (some (.i32 7)))) := by
    decide +kernel
  have hread : (Module.bodies branchBinary).toOption = some [[.block (some .i32), .localGet 0,
      .localGet 0, .brIf 0, .drop, .const (.i32 5), .close, .close]] := by
    decide +kernel
  obtain ⟨⟨r, s⟩, hload, rfl⟩ := Option.map_eq_some_iff.mp hmade
  rw [hload, Option.bind_some] at hcall
  obtain ⟨i, hi, hcall⟩ := Option.bind_eq_some_iff.mp hcall
  obtain ⟨code, hcode, hcall⟩ := Option.map_eq_some_iff.mp hcall
  injection hcall with hparams hcall
  injection hcall with haddr hcall
  obtain ⟨⟨_, s'⟩, hcall, rfl⟩ := Option.map_eq_some_iff.mp hcall
  obtain ⟨m, hdecode, hinstantiate⟩ := Store.load_eq_some hload
  have hempty : (World.idle { id := 0 }).Reachable := World.reachable_new 0 {}
  have hs : s.WellFormed := (hempty.load hload).sound
  obtain ⟨i', hi', rfl⟩ :=
    Store.WellFormed.instance_of_instantiate hempty.sound ⟨_, _, hdecode⟩ hinstantiate
  obtain rfl := Option.some.inj (hi.symm.trans hi')
  have hbodies := except_toOption_eq_some hread
  have hargs : [Value.i32 7].map Value.type = code.type.params := by rw [hparams]; rfl
  obtain ⟨⟨l, hl⟩, hsame⟩ :=
    hs.compiled_iff_stacked hdecode hbodies hcode rfl hi rfl haddr hargs
  have hends : Engine.compiled.Ends s.depth (Operation.callValues s (s.ref 0) [.i32 7])
      (.ok (some (.i32 7))) s' := ⟨20, hcall⟩
  refine ⟨_, s, i.module, _, code, l, s', hload, hdecode, hbodies, hcode, ?_, rfl, hends,
    ((hsame l hl).2.1 _ _).mp hends⟩
  rw [hl]
  rfl

end WasmEngine
