import Switchboard.Dispatch.Call

namespace Switchboard.Slots

-- Only frames hold slots: one for each layer of the pool that let the call through.
def held (pool : Nat) (frames : List Frame) : Nat := frames.count (.slot pool)

@[simp] theorem held_nil (pool : Nat) : held pool [] = 0 := rfl

@[simp] theorem held_measured (pool : Nat) (span : Span) (frames : List Frame) :
    held pool (.measured span :: frames) = held pool frames := by simp [held]

@[simp] theorem held_slot (pool other : Nat) (frames : List Frame) :
    held pool (.slot other :: frames) = held pool frames + if other = pool then 1 else 0 := by
  simp [held,List.count_cons]

def Opened (w : World) (frames : List Frame) : Prop :=
  ∀ pool, Frame.slot pool ∈ frames → pool < w.pools.length

theorem opened_unheld {w : World} {frames : List Frame} (opened : Opened w frames) :
    held w.pools.length frames = 0 := by
  apply List.count_eq_zero.mpr
  intro member
  exact Nat.lt_irrefl _ (opened _ member)

theorem opened_mono {before after : World} {frames : List Frame} (opened : Opened before frames)
    (more : before.pools.length ≤ after.pools.length) : Opened after frames :=
  fun pool member => Nat.lt_of_lt_of_le (opened pool member) more

-- A pool that nobody opened has no free slot, so it is never taken from.
theorem opened_free {w : World} {pool : Nat} (free : w.free pool ≠ 0) : pool < w.pools.length := by
  apply Nat.lt_of_not_le
  intro beyond
  exact free (by simp [World.free,beyond])

theorem free_takeSlot {w : World} {pool : Nat} (free : w.free pool ≠ 0) (other : Nat) :
    (w.takeSlot pool).free other + (if pool = other then 1 else 0) = w.free other := by
  have inside := opened_free free
  by_cases same : pool = other
  · subst same
    have now : (w.takeSlot pool).free pool = w.free pool - 1 := by
      simp [World.takeSlot,World.free,inside]
    rw [now,if_pos rfl]
    omega
  · simp [World.takeSlot,World.free,same]

theorem free_returnSlot {w : World} {pool : Nat} (inside : pool < w.pools.length) (other : Nat) :
    (w.returnSlot pool).free other = w.free other + if pool = other then 1 else 0 := by
  by_cases same : pool = other
  · subst same; simp [World.returnSlot,World.free,inside]
  · simp [World.returnSlot,World.free,same]

structure Taken (frames : List Frame) (before after : World) : Prop where
  pools : after.pools.length = before.pools.length
  free : ∀ pool, after.free pool + held pool frames = before.free pool
  opened : Opened after frames

structure Returned (frames : List Frame) (before after : World) : Prop where
  pools : after.pools.length = before.pools.length
  free : ∀ pool, after.free pool = before.free pool + held pool frames

theorem returned_of_pools {before after : World} (same : after.pools = before.pools) :
    Returned [] before after := ⟨by rw [same],fun pool => by simp [World.free,same]⟩

theorem enter_taken (handler : Handler) (r : Request) (layers : List Layer) (spans : List Span)
    (w : World) :
    Taken (enter handler r layers spans w).frames w (enter handler r layers spans w).world := by
  induction layers generalizing spans w with
  | nil => exact ⟨rfl,fun pool => rfl,fun pool member => by cases member⟩
  | cons layer rest ih =>
      cases layer with
      | metrics =>
          obtain ⟨pools,free,opened⟩ := ih (spans ++ [r.span]) w
          refine ⟨pools,fun pool => by simpa [enter] using free pool,fun pool member => ?_⟩
          exact opened pool (by simpa [enter] using member)
      | shed own =>
          unfold enter
          split
          · exact ⟨rfl,fun pool => rfl,fun pool member => by cases member⟩
          · rename_i free
            obtain ⟨pools,inner,opened⟩ := ih spans (w.takeSlot own)
            have length : (w.takeSlot own).pools.length = w.pools.length := by simp [World.takeSlot]
            refine ⟨pools.trans length,fun pool => ?_,fun pool member => ?_⟩
            · have taken := free_takeSlot free pool
              have rest := inner pool
              simp only [held_slot]
              omega
            · rcases List.mem_cons.mp member with same | member
              · cases same
                dsimp only
                rw [pools,length]
                exact opened_free free
              · exact opened pool member

theorem releasing_pools (w : World) (holds : Bool) : (w.releasing holds).pools = w.pools := by
  cases holds <;> rfl

theorem call_taken (p : Pipe) (r : Request) (token : Token) (w : World) :
    Taken (p.call r token w).1.frames w (p.call r token w).2 := by
  have taken := enter_taken p.handler r p.layers [] w
  unfold Pipe.call
  cases core : (enter p.handler r p.layers [] w).core with
  | running work => simpa [core] using taken
  | shed =>
      obtain ⟨pools,free,opened⟩ := taken
      refine ⟨?_,fun pool => ?_,fun pool member => ?_⟩
      · simpa [core,releasing_pools] using pools
      · simpa [core,releasing_pools,World.free] using free pool
      · simpa [core,releasing_pools] using opened pool (by simpa [core] using member)

theorem returned_measured {inner : List Frame} {before after later : World} (span : Span)
    (returned : Returned inner before after) (same : later.pools = after.pools) :
    Returned (.measured span :: inner) before later := by
  refine ⟨by rw [same,returned.pools],fun pool => ?_⟩
  rw [held_measured,← returned.free pool,World.free,World.free,same]

theorem returned_slot {inner : List Frame} {before after : World} {own : Nat}
    (returned : Returned inner before after) (inside : own < before.pools.length) :
    Returned (.slot own :: inner) before (after.returnSlot own) := by
  refine ⟨by simpa [World.returnSlot] using returned.pools,fun pool => ?_⟩
  rw [free_returnSlot (returned.pools ▸ inside),returned.free pool,held_slot,Nat.add_assoc]

-- Frames end from the inside out; a slot is given back once the frames inside are gone.
theorem finish_returned (label : String) {frames : List Frame} {w : World} (outer : List Span)
    (opened : Opened w frames) : Returned frames w (finish label frames outer w) := by
  induction frames generalizing outer with
  | nil => exact returned_of_pools rfl
  | cons frame inner ih =>
      have inside : Opened w inner := fun pool member => opened pool (List.mem_cons_of_mem _ member)
      cases frame with
      | measured span => exact returned_measured span (ih (outer ++ [span]) inside) rfl
      | slot own => exact returned_slot (ih outer inside) (opened own List.mem_cons_self)

theorem abandon_returned {frames : List Frame} {w : World} (opened : Opened w frames) :
    Returned frames w (abandon frames w) := by
  induction frames with
  | nil => exact returned_of_pools rfl
  | cons frame inner ih =>
      have inside : Opened w inner := fun pool member => opened pool (List.mem_cons_of_mem _ member)
      cases frame with
      | measured span => exact returned_measured span (ih inside) rfl
      | slot own => exact returned_slot (ih inside) (opened own List.mem_cons_self)

theorem returned_from {frames : List Frame} {before other after : World}
    (same : other.pools = before.pools) (returned : Returned frames other after) :
    Returned frames before after :=
  ⟨by rw [returned.pools,same],fun pool => by rw [returned.free pool,World.free,World.free,same]⟩

theorem drop_returned {c : Call} {w : World} (opened : Opened w c.frames) :
    Returned c.frames w (c.drop w) := by
  have same := releasing_pools w c.holdsReader
  refine returned_from same (abandon_returned ?_)
  exact fun pool member => same ▸ opened pool member

theorem poll_cases (c : Call) (w : World) :
    (∃ next after, c.poll w = (.waiting next,after) ∧ next.frames = c.frames ∧
      after.pools = w.pools) ∨
    ∃ response after, c.poll w = (.answered response,after) ∧
      (Opened w c.frames → Returned c.frames w after) := by
  unfold Call.poll
  split
  · exact .inr ⟨_,_,rfl,finish_returned _ []⟩
  · rename_i work _
    cases work.advance (c.turn w) with
    | mk progress turn =>
        cases progress with
        | blocked work => exact .inl ⟨_,_,rfl,rfl,rfl⟩
        | finished response =>
            have same : (c.afterTurn w turn.released).pools = w.pools := rfl
            refine .inr ⟨_,_,rfl,fun opened => returned_from same (finish_returned _ [] ?_)⟩
            exact fun pool member => same ▸ opened pool member

-- This holds of an answer and of giving up after so many looks alike.
theorem run_returned (left polls : Nat) {c : Call} {w : World} (opened : Opened w c.frames) :
    Returned c.frames w (c.run left polls w).2.2 := by
  induction left generalizing polls c w with
  | zero => exact drop_returned opened
  | succ left ih =>
      unfold Call.run
      rcases poll_cases c w with ⟨next,after,polled,frames,pools⟩ | ⟨response,after,polled,returned⟩
      · rw [polled,← frames]
        refine returned_from pools (ih (polls+1) fun pool member => ?_)
        rw [pools]
        exact opened pool (frames ▸ member)
      · rw [polled]; exact returned opened

end Switchboard.Slots
