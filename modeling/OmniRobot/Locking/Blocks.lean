import Mathlib.Data.List.Induction
import Mathlib.Logic.Function.Basic
import Mathlib.Tactic.SplitIfs

/-!
# Critical sections under one lock

Threads run blocks of code on a memory that they share and on variables of their own. A block may
hold one critical section; the rest of it works on its own variables. Single operations of all
threads interleave in any order, and only the lock keeps an operation waiting.

Whatever the order, no thread accesses the memory without the lock, some thread can always go on,
and the run does what one does in which every block runs at once: a block with a section when it
acquires the lock, and any other when it starts. Each thread has the same blocks in both, in the
same order.

## Main results

* `Sim.move`: one operation keeps the simulation, which may run one block at once;
* `Sim.ne_race`, `Sim.exists_move`: what the simulation rules out;
* `Sim.run`, `exists_wholeRun`: every interleaving has a run in which blocks run at once.
-/

namespace Locking

/-! ### Blocks -/

section Blocks

variable {M L : Type}

/-- One operation of a thread, on the memory `M` and its own variables `L`. -/
inductive Op (M L : Type) where
  | acquire
  | release
  | access (f : M × L → M × L)
  | own (g : L → L)

/-- A block of code. -/
inductive Block (M L : Type) where
  /-- Without a section. -/
  | plain (own : List (L → L))
  /-- With one. -/
  | locked (before : List (L → L)) (inside : List (M × L → M × L)) (after : List (L → L))

/-- Own operations, one after the other. -/
def runOwn (gs : List (L → L)) (l : L) : L := gs.foldl (fun l g => g l) l

/-- Accesses, one after the other. -/
def runInside (fs : List (M × L → M × L)) (p : M × L) : M × L := fs.foldl (fun p f => f p) p

/-- The operations from inside a section. -/
def insideOps (fs : List (M × L → M × L)) (gs : List (L → L)) : List (Op M L) :=
  fs.map .access ++ .release :: gs.map .own

/-- The operations of a block. -/
def Block.ops : Block M L → List (Op M L)
  | .plain gs => gs.map .own
  | .locked before inside after => before.map .own ++ .acquire :: insideOps inside after

/-- A block that runs at once. -/
def Block.exec : Block M L → M × L → M × L
  | .plain gs, p => (p.1, runOwn gs p.2)
  | .locked before inside after, p =>
      let q := runInside inside (p.1, runOwn before p.2)
      (q.1, runOwn after q.2)

end Blocks

/-! ### Systems -/

variable {T M : Type} {L B : T → Type}

/-- The blocks of each thread, and when it may start which. -/
structure System (T M : Type) (L B : T → Type) where
  block : ∀ t, B t → Block M (L t)
  enabled : ∀ t, B t → L t → Bool

/-- The memory, the variables of each thread, who holds the lock, and what each thread has still to
do of its block. -/
structure Config (T M : Type) (L : T → Type) where
  mem : M
  own : ∀ t, L t
  owner : Option T
  todo : ∀ t, List (Op M (L t))

/-- No block has been started. -/
def Config.start (mem : M) (own : ∀ t, L t) : Config T M L := ⟨mem, own, none, fun _ => []⟩

/-- A thread starts a block, or goes on. -/
inductive Move (T : Type) (B : T → Type) where
  | start (t : T) (b : B t)
  | go (t : T)

/-- Why a move is not possible. -/
inductive Stop where
  /-- The thread has nothing to do, or a block to finish first. -/
  | refused
  /-- Another thread holds the lock. -/
  | blocked
  /-- The thread accesses the memory, or releases the lock, and does not hold it. -/
  | race
  deriving DecidableEq

variable [DecidableEq T]

/-- One operation. -/
def Op.run (t : T) (rest : List (Op M (L t))) (c : Config T M L) :
    Op M (L t) → Except Stop (Config T M L)
  | .acquire =>
      if c.owner = none then
        .ok { c with owner := some t, todo := Function.update c.todo t rest }
      else .error .blocked
  | .release =>
      if c.owner = some t then
        .ok { c with owner := none, todo := Function.update c.todo t rest }
      else .error .race
  | .access f =>
      if c.owner = some t then
        let p := f (c.mem, c.own t)
        .ok { c with mem := p.1, own := Function.update c.own t p.2,
                     todo := Function.update c.todo t rest }
      else .error .race
  | .own g =>
      .ok { c with own := Function.update c.own t (g (c.own t)),
                   todo := Function.update c.todo t rest }

/-- One move. -/
def System.move (sys : System T M L B) : Move T B → Config T M L → Except Stop (Config T M L)
  | .start t b, c =>
      if (c.todo t).isEmpty && sys.enabled t b (c.own t) then
        .ok { c with todo := Function.update c.todo t (sys.block t b).ops }
      else .error .refused
  | .go t, c =>
      match c.todo t with
      | [] => .error .refused
      | op :: rest => op.run t rest c

/-- An interleaving. -/
def System.run (sys : System T M L B) (moves : List (Move T B)) (c : Config T M L) :
    Except Stop (Config T M L) :=
  moves.foldlM (fun c m => sys.move m c) c

/-- The memory and the variables where every block runs at once. -/
structure Whole (T M : Type) (L : T → Type) where
  mem : M
  own : ∀ t, L t

/-- One block of a thread, at once. -/
def System.whole (sys : System T M L B) (t : T) (b : B t) (s : Whole T M L) : Whole T M L :=
  let p := (sys.block t b).exec (s.mem, s.own t)
  ⟨p.1, Function.update s.own t p.2⟩

theorem System.whole_own_self (sys : System T M L B) (t : T) (b : B t) (s : Whole T M L) :
    (sys.whole t b s).own t = ((sys.block t b).exec (s.mem, s.own t)).2 :=
  Function.update_self t _ s.own

/-- A block leaves the variables of the other threads alone. -/
theorem System.whole_own_of_ne (sys : System T M L B) {t t' : T} (h : t' ≠ t) (b : B t)
    (s : Whole T M L) : (sys.whole t b s).own t' = s.own t' :=
  Function.update_of_ne h _ s.own

/-- A run in which blocks run at once, each where its thread may start it. -/
inductive WholeRun (sys : System T M L B) (s₀ : Whole T M L) :
    List (Σ t, B t) → Whole T M L → Prop
  | nil : WholeRun sys s₀ [] s₀
  | concat {bs : List (Σ t, B t)} {s : Whole T M L} (t : T) (b : B t) :
      WholeRun sys s₀ bs s → sys.enabled t b (s.own t) = true →
      WholeRun sys s₀ (bs ++ [⟨t, b⟩]) (sys.whole t b s)

/-- The blocks of a thread. -/
def blocksOf (t : T) (bs : List (Σ t, B t)) : List (B t) :=
  bs.filterMap fun x => if h : x.1 = t then some (h ▸ x.2) else none

/-- The blocks that an interleaving starts. -/
def started (moves : List (Move T B)) : List (Σ t, B t) :=
  moves.filterMap fun m => match m with
    | .start t b => some ⟨t, b⟩
    | .go _ => none

theorem blocksOf_append (t : T) (bs bs' : List (Σ t, B t)) :
    blocksOf t (bs ++ bs') = blocksOf t bs ++ blocksOf t bs' := List.filterMap_append

theorem blocksOf_of_ne {t t' : T} (h : t' ≠ t) (b : B t') : blocksOf t [⟨t', b⟩] = [] := by
  simp [blocksOf, h]

theorem mem_blocksOf {t : T} {b : B t} {bs : List (Σ t, B t)} (h : b ∈ blocksOf t bs) :
    ⟨t, b⟩ ∈ bs := by
  obtain ⟨⟨t', b'⟩, hmem, hb⟩ := List.mem_filterMap.mp h
  dsimp only at hb
  split_ifs at hb with ht
  subst ht
  cases hb
  exact hmem

/-! ### The simulation -/

/-- Where a thread stands in its block, beside the run in which blocks run at once. Of the blocks it
has started, `waiting` are those that have not run there. -/
inductive Stage (sys : System T M L B) (c : Config T M L) (s : Whole T M L)
    (waiting : ∀ t, Option (B t)) (t : T) : Prop
  /-- Before its section: there its block has not run yet. -/
  | before (b : B t) (all gs : List (L t → L t)) (fs : List (M × L t → M × L t))
      (hs : List (L t → L t)) (hwaiting : waiting t = some b)
      (hblock : sys.block t b = .locked all fs hs)
      (henabled : sys.enabled t b (s.own t) = true) (howner : c.owner ≠ some t)
      (htodo : c.todo t = gs.map .own ++ .acquire :: insideOps fs hs)
      (hown : runOwn gs (c.own t) = runOwn all (s.own t))
  /-- Inside: there it has, and what is left to do here makes up for it. -/
  | inside (fs : List (M × L t → M × L t)) (hs : List (L t → L t)) (hwaiting : waiting t = none)
      (howner : c.owner = some t) (htodo : c.todo t = insideOps fs hs)
      (hmem : s.mem = (runInside fs (c.mem, c.own t)).1)
      (hown : s.own t = runOwn hs (runInside fs (c.mem, c.own t)).2)
  /-- After it, or outside of any block. -/
  | after (hs : List (L t → L t)) (hwaiting : waiting t = none) (howner : c.owner ≠ some t)
      (htodo : c.todo t = hs.map .own) (hown : s.own t = runOwn hs (c.own t))

/-- The configuration and the run in which blocks run at once belong together. -/
structure Sim (sys : System T M L B) (c : Config T M L) (s : Whole T M L)
    (waiting : ∀ t, Option (B t)) : Prop where
  stage : ∀ t, Stage sys c s waiting t
  mem_eq : c.owner = none → s.mem = c.mem

omit [DecidableEq T] in
theorem sim_start (sys : System T M L B) (mem : M) (own : ∀ t, L t) :
    Sim sys (.start mem own) ⟨mem, own⟩ fun _ => none :=
  ⟨fun _ => .after [] rfl (by simp [Config.start]) rfl rfl, fun _ => rfl⟩

variable {sys : System T M L B} {c c' : Config T M L} {s s' : Whole T M L}
  {w w' : ∀ t, Option (B t)} {t : T}

omit [DecidableEq T] in
/-- The stage of a thread that a move does not concern. -/
theorem Stage.of_same (h : Stage sys c s w t) (hw : w' t = w t) (htodo : c'.todo t = c.todo t)
    (hown : c'.own t = c.own t) (hs : s'.own t = s.own t)
    (howner : c'.owner = some t ↔ c.owner = some t)
    (hmem : c.owner = some t → c'.mem = c.mem ∧ s'.mem = s.mem) : Stage sys c' s' w' t := by
  cases h with
  | before b all gs fs hs' hwaiting hblock henabled howner' htodo' hown' =>
    refine .before b all gs fs hs' (hw.trans hwaiting) hblock ?_ (fun h => howner' (howner.mp h))
      (htodo.trans htodo') ?_
    · rw [hs]; exact henabled
    · rw [hown, hs]; exact hown'
  | inside fs hs' hwaiting howner' htodo' hmem' hown' =>
    obtain ⟨hc, hs''⟩ := hmem howner'
    refine .inside fs hs' (hw.trans hwaiting) (howner.mpr howner') (htodo.trans htodo') ?_ ?_
    · rw [hs'', hc, hown]; exact hmem'
    · rw [hs, hc, hown]; exact hown'
  | after hs' hwaiting howner' htodo' hown' =>
    refine .after hs' (hw.trans hwaiting) (fun h => howner' (howner.mp h)) (htodo.trans htodo') ?_
    rw [hs, hown]; exact hown'

omit [DecidableEq T] in
/-- Outside of any block, a thread has the same variables in both. -/
theorem Stage.own_eq (h : Stage sys c s w t) (htodo : c.todo t = []) :
    w t = none ∧ s.own t = c.own t ∧ c.owner ≠ some t := by
  cases h with
  | before b all gs fs hs hwaiting hblock henabled howner htodo' hown =>
    rw [htodo] at htodo'
    exact absurd htodo'.symm (by simp)
  | inside fs hs hwaiting howner htodo' hmem hown =>
    rw [htodo] at htodo'
    exact absurd htodo'.symm (by simp [insideOps])
  | after hs hwaiting howner htodo' hown =>
    rw [htodo, eq_comm, List.map_eq_nil_iff] at htodo'
    subst htodo'
    exact ⟨hwaiting, hown, howner⟩

/-! ### Operations -/

/-- A block without a section runs when it is started. -/
theorem Sim.startPlain (h : Sim sys c s w) {b : B t} {gs : List (L t → L t)}
    (hblock : sys.block t b = .plain gs) (htodo : c.todo t = []) :
    Sim sys { c with todo := Function.update c.todo t (gs.map .own) } (sys.whole t b s) w := by
  obtain ⟨hw, hsame, howner⟩ := (h.stage t).own_eq htodo
  have hmem : (sys.whole t b s).mem = s.mem := by simp [System.whole, hblock, Block.exec]
  refine ⟨fun t' => ?_, fun hnone => hmem.trans (h.mem_eq hnone)⟩
  by_cases ht : t' = t
  · subst ht
    refine .after gs hw howner (Function.update_self _ _ _) ?_
    simp [System.whole, hblock, Block.exec, hsame]
  · exact (h.stage t').of_same rfl (Function.update_of_ne ht _ _) rfl
      (Function.update_of_ne ht _ _) Iff.rfl fun _ => ⟨rfl, hmem⟩

/-- A block with a section waits when it is started. -/
theorem Sim.startLocked (h : Sim sys c s w) {b : B t} {all : List (L t → L t)}
    {fs : List (M × L t → M × L t)} {hs : List (L t → L t)}
    (hblock : sys.block t b = .locked all fs hs) (htodo : c.todo t = [])
    (henabled : sys.enabled t b (c.own t) = true) :
    Sim sys { c with todo := Function.update c.todo t (sys.block t b).ops } s
      (Function.update w t (some b)) := by
  obtain ⟨-, hsame, howner⟩ := (h.stage t).own_eq htodo
  refine ⟨fun t' => ?_, h.mem_eq⟩
  by_cases ht : t' = t
  · subst ht
    refine .before b all all fs hs (Function.update_self _ _ _) hblock
      (by rw [hsame]; exact henabled) howner ?_ (by rw [hsame])
    dsimp only
    rw [Function.update_self, hblock]
    rfl
  · exact (h.stage t').of_same (Function.update_of_ne ht _ _) (Function.update_of_ne ht _ _) rfl
      rfl Iff.rfl fun _ => ⟨rfl, rfl⟩

/-- A thread takes the lock before the section of the block that waits. The block runs. -/
theorem Sim.acquire (h : Sim sys c s w) {rest : List (Op M (L t))}
    (htodo : c.todo t = .acquire :: rest) :
    c.owner ≠ some t ∧ ∃ b, w t = some b ∧ sys.enabled t b (s.own t) = true ∧
      (c.owner = none →
        Sim sys { c with owner := some t, todo := Function.update c.todo t rest }
          (sys.whole t b s) (Function.update w t none)) := by
  cases h.stage t with
  | inside fs hs hwaiting howner htodo' hmem hown =>
    rw [htodo] at htodo'
    cases fs <;> cases htodo'
  | after hs hwaiting howner htodo' hown =>
    rw [htodo] at htodo'
    cases hs <;> cases htodo'
  | before b all gs fs hs hwaiting hblock henabled howner htodo' hown =>
    rw [htodo] at htodo'
    cases gs with
    | cons g gs => cases htodo'
    | nil =>
      cases htodo'
      have hown' : c.own t = runOwn all (s.own t) := hown
      refine ⟨howner, b, hwaiting, henabled, fun hnone => ⟨fun t' => ?_, fun hnone' =>
        absurd hnone' (Option.some_ne_none t)⟩⟩
      have hmem := h.mem_eq hnone
      by_cases ht : t' = t
      · subst ht
        refine .inside fs hs (Function.update_self _ _ _) rfl (Function.update_self _ _ _) ?_ ?_
        · simp [System.whole, hblock, Block.exec, hown', hmem]
        · simp [System.whole, hblock, Block.exec, hown', hmem]
      · refine (h.stage t').of_same (Function.update_of_ne ht _ _) (Function.update_of_ne ht _ _)
          rfl (Function.update_of_ne ht _ _) ?_ fun howner' => ?_
        · rw [hnone]
          simp [Ne.symm ht]
        · rw [hnone] at howner'
          cases howner'

/-- An operation on its own variables leaves a thread in its stage. -/
theorem Sim.own (h : Sim sys c s w) {g : L t → L t} {rest : List (Op M (L t))}
    (htodo : c.todo t = .own g :: rest) :
    Sim sys { c with own := Function.update c.own t (g (c.own t)),
                     todo := Function.update c.todo t rest } s w := by
  refine ⟨fun t' => ?_, h.mem_eq⟩
  by_cases ht : t' = t
  · subst ht
    cases h.stage t' with
    | before b all gs fs hs hwaiting hblock henabled howner htodo' hown =>
      rw [htodo] at htodo'
      cases gs with
      | nil => cases htodo'
      | cons g' gs =>
        cases htodo'
        refine .before b all gs fs hs hwaiting hblock henabled howner
          (Function.update_self _ _ _) ?_
        dsimp only
        rw [Function.update_self]
        exact hown
    | inside fs hs hwaiting howner htodo' hmem hown =>
      rw [htodo] at htodo'
      cases fs <;> cases htodo'
    | after hs hwaiting howner htodo' hown =>
      rw [htodo] at htodo'
      cases hs with
      | nil => cases htodo'
      | cons g' hs =>
        cases htodo'
        refine .after hs hwaiting howner (Function.update_self _ _ _) ?_
        dsimp only
        rw [Function.update_self]
        exact hown
  · exact (h.stage t').of_same rfl (Function.update_of_ne ht _ _) (Function.update_of_ne ht _ _) rfl
      Iff.rfl fun _ => ⟨rfl, rfl⟩

/-- An access holds the lock, and what is left to do makes up for it. -/
theorem Sim.access (h : Sim sys c s w) {f : M × L t → M × L t} {rest : List (Op M (L t))}
    (htodo : c.todo t = .access f :: rest) :
    c.owner = some t ∧
      Sim sys { c with mem := (f (c.mem, c.own t)).1,
                       own := Function.update c.own t (f (c.mem, c.own t)).2,
                       todo := Function.update c.todo t rest } s w := by
  cases h.stage t with
  | before b all gs fs hs hwaiting hblock henabled howner htodo' hown =>
    rw [htodo] at htodo'
    cases gs <;> cases htodo'
  | after hs hwaiting howner htodo' hown =>
    rw [htodo] at htodo'
    cases hs <;> cases htodo'
  | inside fs hs hwaiting howner htodo' hmem hown =>
    rw [htodo] at htodo'
    cases fs with
    | nil => cases htodo'
    | cons f' fs =>
      cases htodo'
      refine ⟨howner, fun t' => ?_, fun hnone =>
        absurd (howner.symm.trans hnone) (Option.some_ne_none t)⟩
      by_cases ht : t' = t
      · subst ht
        refine .inside fs hs hwaiting howner (Function.update_self _ _ _) ?_ ?_
        all_goals
          dsimp only
          rw [Function.update_self]
        exacts [hmem, hown]
      · exact (h.stage t').of_same rfl (Function.update_of_ne ht _ _) (Function.update_of_ne ht _ _)
          rfl Iff.rfl fun howner' =>
            absurd (Option.some.inj (howner.symm.trans howner')).symm ht

/-- A release holds the lock, and leaves the memory as the blocks leave it that run at once. -/
theorem Sim.release (h : Sim sys c s w) {rest : List (Op M (L t))}
    (htodo : c.todo t = .release :: rest) :
    c.owner = some t ∧
      Sim sys { c with owner := none, todo := Function.update c.todo t rest } s w := by
  cases h.stage t with
  | before b all gs fs hs hwaiting hblock henabled howner htodo' hown =>
    rw [htodo] at htodo'
    cases gs <;> cases htodo'
  | after hs hwaiting howner htodo' hown =>
    rw [htodo] at htodo'
    cases hs <;> cases htodo'
  | inside fs hs hwaiting howner htodo' hmem hown =>
    rw [htodo] at htodo'
    cases fs with
    | cons f' fs => cases htodo'
    | nil =>
      cases htodo'
      refine ⟨howner, fun t' => ?_, fun _ => hmem⟩
      by_cases ht : t' = t
      · subst ht
        exact .after hs hwaiting (by simp) (Function.update_self _ _ _) hown
      · refine (h.stage t').of_same rfl (Function.update_of_ne ht _ _) rfl rfl ?_ fun howner' => ?_
        · rw [howner]
          simp [Ne.symm ht]
        · exact absurd (Option.some.inj (howner.symm.trans howner')).symm ht

/-! ### Moves -/

/-- One move: what it starts, what runs at once, and what waits then. -/
theorem Sim.move (h : Sim sys c s w) {m : Move T B} (hm : sys.move m c = .ok c') :
    ∃ w' bs s', WholeRun sys s bs s' ∧ Sim sys c' s' w' ∧
      ∀ t, (w t).toList ++ blocksOf t (started [m]) = blocksOf t bs ++ (w' t).toList := by
  cases m with
  | start t b =>
    rw [System.move] at hm
    split_ifs at hm with henabled
    cases hm
    rw [Bool.and_eq_true, List.isEmpty_iff] at henabled
    obtain ⟨htodo, henabled⟩ := henabled
    obtain ⟨hw, hsame, -⟩ := (h.stage t).own_eq htodo
    cases hblock : sys.block t b with
    | plain gs =>
      refine ⟨w, [⟨t, b⟩], _, .concat t b .nil (by rw [hsame]; exact henabled),
        h.startPlain hblock htodo, fun t' => ?_⟩
      by_cases ht : t' = t
      · subst ht
        rw [hw]
        simp [started]
      · simp [started, blocksOf_of_ne (Ne.symm ht)]
    | locked all fs hs =>
      have hsim := h.startLocked hblock htodo henabled
      rw [hblock] at hsim
      refine ⟨_, [], s, .nil, hsim, fun t' => ?_⟩
      by_cases ht : t' = t
      · subst ht
        rw [hw]
        simp [started, blocksOf]
      · simp [started, blocksOf, Function.update_of_ne ht, Ne.symm ht]
  | go t =>
    have hidle : ∀ t', (w t').toList ++ blocksOf t' (started [.go t]) =
        blocksOf t' ([] : List (Σ t, B t)) ++ (w t').toList := by
      intro t'
      simp [started, blocksOf]
    rw [System.move] at hm
    cases htodo : c.todo t with
    | nil =>
      rw [htodo] at hm
      cases hm
    | cons op rest =>
      rw [htodo] at hm
      cases op with
      | acquire =>
        dsimp only [Op.run] at hm
        split_ifs at hm with hnone
        cases hm
        obtain ⟨-, b, hw, henabled, hsim⟩ := h.acquire htodo
        refine ⟨_, [⟨t, b⟩], _, .concat t b .nil henabled, hsim hnone, fun t' => ?_⟩
        by_cases ht : t' = t
        · subst ht
          rw [hw]
          simp [started, blocksOf]
        · rw [Function.update_of_ne ht, blocksOf_of_ne (Ne.symm ht)]
          exact hidle t'
      | release =>
        obtain ⟨howner, hsim⟩ := h.release htodo
        dsimp only [Op.run] at hm
        rw [if_pos howner] at hm
        cases hm
        exact ⟨w, [], s, .nil, hsim, hidle⟩
      | access f =>
        obtain ⟨howner, hsim⟩ := h.access htodo
        dsimp only [Op.run] at hm
        rw [if_pos howner] at hm
        cases hm
        exact ⟨w, [], s, .nil, hsim, hidle⟩
      | own g =>
        cases hm
        exact ⟨w, [], s, .nil, h.own htodo, hidle⟩

/-- No thread accesses the memory, or releases the lock, without holding it. -/
theorem Sim.ne_race (h : Sim sys c s w) (m : Move T B) : sys.move m c ≠ .error .race := by
  intro hm
  cases m with
  | start t b =>
    rw [System.move] at hm
    split_ifs at hm
    cases hm
  | go t =>
    rw [System.move] at hm
    cases htodo : c.todo t with
    | nil =>
      rw [htodo] at hm
      cases hm
    | cons op rest =>
      rw [htodo] at hm
      cases op with
      | acquire =>
        dsimp only [Op.run] at hm
        split_ifs at hm
        cases hm
      | release =>
        dsimp only [Op.run] at hm
        rw [if_pos (h.release htodo).1] at hm
        cases hm
      | access f =>
        dsimp only [Op.run] at hm
        rw [if_pos (h.access htodo).1] at hm
        cases hm
      | own g => cases hm

/-- While a thread has something to do, some thread can go on: the one that holds the lock, or else
any. -/
theorem Sim.exists_move (h : Sim sys c s w) (hbusy : c.todo t ≠ []) :
    ∃ t' c', sys.move (.go t') c = .ok c' := by
  have hgo : ∀ t', c.todo t' ≠ [] → (c.owner = none ∨ c.owner = some t') →
      ∃ c', sys.move (.go t') c = .ok c' := by
    intro t' hne howner
    obtain ⟨op, rest, htodo⟩ := List.exists_cons_of_ne_nil hne
    rw [System.move, htodo]
    cases op with
    | acquire => exact ⟨_, if_pos (howner.resolve_right (h.acquire htodo).1)⟩
    | release => exact ⟨_, if_pos (h.release htodo).1⟩
    | access f => exact ⟨_, if_pos (h.access htodo).1⟩
    | own g => exact ⟨_, rfl⟩
  cases howner : c.owner with
  | none =>
    obtain ⟨c', hc'⟩ := hgo t hbusy (.inl howner)
    exact ⟨t, c', hc'⟩
  | some t' =>
    have hne : c.todo t' ≠ [] := fun htodo => ((h.stage t').own_eq htodo).2.2 howner
    obtain ⟨c', hc'⟩ := hgo t' hne (.inr howner)
    exact ⟨t', c', hc'⟩

/-! ### Runs -/

omit [DecidableEq T] in
theorem started_append (moves moves' : List (Move T B)) :
    started (moves ++ moves') = started moves ++ started moves' := List.filterMap_append

theorem WholeRun.append {s₀ s₁ s₂ : Whole T M L} {bs bs' : List (Σ t, B t)}
    (h : WholeRun sys s₀ bs s₁) (h' : WholeRun sys s₁ bs' s₂) :
    WholeRun sys s₀ (bs ++ bs') s₂ := by
  induction h' with
  | nil => rwa [List.append_nil]
  | concat t b _ henabled ih =>
    rw [← List.append_assoc]
    exact .concat t b ih henabled

/-- From a configuration that belongs to a run in which blocks run at once, every interleaving goes
on as that run does. Each thread has the same blocks in both, in the same order, but for one that
may wait before its section. -/
theorem Sim.run (h : Sim sys c s w) {moves : List (Move T B)} (hrun : sys.run moves c = .ok c') :
    ∃ w' bs s', WholeRun sys s bs s' ∧ Sim sys c' s' w' ∧
      ∀ t, (w t).toList ++ blocksOf t (started moves) = blocksOf t bs ++ (w' t).toList := by
  induction moves using List.reverseRecOn generalizing c' with
  | nil =>
    cases hrun
    exact ⟨w, [], s, .nil, h, fun t => List.append_nil _⟩
  | append_singleton moves m ih =>
    rw [System.run, List.foldlM_append] at hrun
    cases hmoves : sys.run moves c with
    | error e =>
      rw [System.run] at hmoves
      rw [hmoves] at hrun
      cases hrun
    | ok c₁ =>
      obtain ⟨w₁, bs, s₁, hwhole, hsim, hblocks⟩ := ih hmoves
      rw [System.run] at hmoves
      rw [hmoves] at hrun
      have hm : sys.move m c₁ = .ok c' := by
        cases hm : sys.move m c₁ with
        | error e => simp [hm, bind, Except.bind] at hrun
        | ok c₂ => simpa [hm, bind, Except.bind, pure, Except.pure] using hrun
      obtain ⟨w', bs', s', hwhole', hsim', hblocks'⟩ := hsim.move hm
      refine ⟨w', bs ++ bs', s', hwhole.append hwhole', hsim', fun t => ?_⟩
      rw [started_append, blocksOf_append, ← List.append_assoc, hblocks, List.append_assoc,
        hblocks', blocksOf_append, List.append_assoc]

/-- Every interleaving has a run in which blocks run at once. -/
theorem exists_wholeRun {moves : List (Move T B)} {mem : M} {own : ∀ t, L t}
    (hrun : sys.run moves (.start mem own) = .ok c) :
    ∃ w bs s, WholeRun sys ⟨mem, own⟩ bs s ∧ Sim sys c s w ∧
      ∀ t, blocksOf t (started moves) = blocksOf t bs ++ (w t).toList :=
  (sim_start sys mem own).run hrun

end Locking
