import Mathlib.Data.List.Nodup
import Mathlib.Data.List.Pairwise
import MrBig.Library.KeyedList
import MrBig.Source.Chunks

/-!
# The memory debugger tracks the live blocks

The live blocks are those of the calls made so far. As long as no requested size is so large
that scaling it wraps around, the table has one slot for each of them with its guard behind
what was requested, and a guard that is written over is found.
-/

set_option autoImplicit false

namespace MrBig.Guarantees.ChunkTracking
open Library Library.Memory Source.Chunks

/-- A live block: where it is, what was requested and what `malloc` was asked for. -/
structure Block where
  addr : Nat
  requested : Nat
  size : Nat
  deriving DecidableEq, Repr

def Block.chunk (b : Block) : Chunk := ⟨b.addr, b.size⟩

def Block.span (b : Block) : Span := ⟨b.addr, b.size⟩

/-- The blocks other than the one at an address. -/
def without (q : Nat) (live : List Block) : List Block := live.filter fun b => b.addr ≠ q

/-- The live blocks after a call that succeeds. -/
def liveAfter (bits : Nat) (live : List Block) : MemCall → List Block
  | .malloc n a => ⟨a, n, scaledSize bits n⟩ :: live
  | .realloc q n a => ⟨a, n, scaledSize bits n⟩ :: without q live
  | .free q => without q live
  | .check | .write _ _ => live

def liveFrom (bits : Nat) (live : List Block) (calls : List MemCall) : List Block :=
  calls.foldl (liveAfter bits) live

/-- The live blocks after a run. -/
def live (bits : Nat) (calls : List MemCall) : List Block := liveFrom bits [] calls

/-- `malloc` and `realloc` return a block of their own. -/
def Fresh (live : List Block) (a m : Nat) : Prop :=
  a ≠ 0 ∧ ∀ b ∈ live, a ≠ b.addr ∧ b.span.Disjoint ⟨a, m⟩

def IsLive (live : List Block) (q : Nat) : Prop := ∃ b ∈ live, b.addr = q

/-- The call is on live blocks, its answer is a fresh block, there are no more than
CHUNKS_MAX blocks, and the program writes in a block only what it requested of it. -/
def Legal (bits : Nat) (live : List Block) : MemCall → Prop
  | .malloc n a => live.length < chunksMax ∧ Fresh live a (scaledSize bits n)
  | .realloc q n a => IsLive live q ∧ Fresh (without q live) a (scaledSize bits n)
  | .free q => q = 0 ∨ IsLive live q
  | .check => True
  | .write address _ => ∀ b ∈ live, b.span.Contains address → address < b.addr + b.requested

/-- The size that a call requests. -/
def request : MemCall → Option Nat
  | .malloc n _ | .realloc _ n _ => some n
  | .free _ | .check | .write _ _ => none

/-- The requested sizes of a run. -/
def requests (calls : List MemCall) : List Nat := calls.filterMap request

/-- The scaled size, in a size_t, has room for the request and the guard. -/
def Fits (bits n : Nat) : Prop := n + patternSize ≤ scaledSize bits n

instance (bits n : Nat) : Decidable (Fits bits n) := inferInstanceAs (Decidable (_ ≤ _))

def Intact (memory : Nat → UInt8) (b : Block) : Prop :=
  load memory b.chunk.guardAddr patternSize = bigPattern

/-- The slots are in one-to-one correspondence with the live blocks, the guards stand behind
what was requested and hold the pattern, and nothing was reported. -/
structure Tracked (live : List Block) (s : MemState) : Prop where
  running : s.exited = none
  slots : (Slots.entries s.chunks).Perm (live.map Block.chunk)
  addrs : (live.map Block.addr).Nodup
  guards : ∀ b ∈ live, b.addr + b.requested ≤ b.chunk.guardAddr ∧ Intact s.memory b

/-- The state after a run. -/
def memState (bits : Nat) (memory : Nat → UInt8) (calls : List MemCall) : MemState :=
  Run.final (memStep bits) (memStart memory) calls

/-- After every call of the run the table tracks the live blocks. -/
def TracksThroughout (bits : Nat) (memory : Nat → UInt8) (calls : List MemCall) : Prop :=
  ∀ before after, calls = before ++ after →
    Tracked (live bits before) (memState bits memory before)

/-- The byte is another one than the guard of the block has there. -/
def Tampers (memory : Nat → UInt8) (b : Block) (address : Nat) (byte : UInt8) : Prop :=
  b.chunk.guardAddr ≤ address ∧ address < b.chunk.guardAddr + patternSize ∧ byte ≠ memory address

/-- The call gives the block back. -/
def Releases (call : MemCall) (b : Block) : Prop :=
  call = .free b.addr ∨ ∃ n a, call = .realloc b.addr n a

/-- A guard byte that is overwritten is reported by the next check, and when the block is
given back, whatever legal calls come before that. -/
def Detects (bits : Nat) (memory : Nat → UInt8) (calls : List MemCall) : Prop :=
  ∀ b ∈ live bits calls, ∀ address byte,
    Tampers (memState bits memory calls).memory b address byte → ∀ later,
      Run.Throughout (memStep bits)
        (fun before _ call => Legal bits (liveFrom bits (live bits calls) before) call)
        (memState bits memory (calls ++ [.write address byte])) later →
      (∀ n ∈ requests later, Fits bits n) →
      (∀ call ∈ later, call ≠ .check ∧ ¬ Releases call b) →
        let s := memState bits memory (calls ++ .write address byte :: later)
        (memStep bits s .check).1.exited = some .corruption ∧
          (memStep bits s (.free b.addr)).1.exited = some .checkNotOk ∧
          ∀ n a, (memStep bits s (.realloc b.addr n a)).1.exited = some .checkNotOk

/-! ### The invariant without the guards -/

structure Sound (live : List Block) (s : MemState) : Prop where
  running : s.exited = none
  table : s.chunks.length = chunksMax
  slots : (Slots.entries s.chunks).Perm (live.map Block.chunk)
  addrs : (live.map Block.addr).Nodup
  apart : live.Pairwise fun b c => b.span.Disjoint c.span
  sized : ∀ b ∈ live, b.addr ≠ 0 ∧ b.requested + patternSize ≤ b.size

def SameGuard (memory memory' : Nat → UInt8) (b : Block) : Prop :=
  ∀ x, b.chunk.guardAddr ≤ x → x < b.chunk.guardAddr + patternSize → memory' x = memory x

theorem SameGuard.intact_iff {memory memory' : Nat → UInt8} {b : Block}
    (same : SameGuard memory memory' b) : Intact memory' b ↔ Intact memory b := by
  unfold Intact
  rw [load_congr same]

/-- What a step that reports nothing does: the invariant is kept, the blocks not given back
stay with their guards, and a new block has its guard. -/
structure Advances (call : MemCall) (live live' : List Block) (s s' : MemState) : Prop where
  sound : Sound live' s'
  kept : ∀ b ∈ live, ¬ Releases call b → b ∈ live' ∧ SameGuard s.memory s'.memory b
  fresh : ∀ b ∈ live', (b ∈ live ∧ ¬ Releases call b) ∨ Intact s'.memory b

section

variable {bits : Nat} {live : List Block} {s : MemState} {b : Block}

theorem mem_without {q : Nat} : b ∈ without q live ↔ b ∈ live ∧ b.addr ≠ q := by
  simp [without]

theorem perm_without (addrs : (live.map Block.addr).Nodup) (member : b ∈ live) :
    live.Perm (b :: without b.addr live) :=
  KeyedList.KeysUnique.perm_cons_remove addrs member

/-- Only the guards depend on the memory. -/
theorem Sound.withMemory (sound : Sound live s) (memory : Nat → UInt8) :
    Sound live { s with memory := memory } :=
  ⟨sound.running, sound.table, sound.slots, sound.addrs, sound.apart, sound.sized⟩

theorem Sound.without (sound : Sound live s) (q : Nat) {s' : MemState}
    (running : s'.exited = none) (table : s'.chunks.length = chunksMax)
    (slots : (Slots.entries s'.chunks).Perm ((without q live).map Block.chunk)) :
    Sound (without q live) s' where
  running := running
  table := table
  slots := slots
  addrs := sound.addrs.sublist ((List.filter_sublist).map _)
  apart := sound.apart.sublist List.filter_sublist
  sized := fun b member => sound.sized b (mem_without.mp member).1

theorem guard_inside (sound : Sound live s) (member : b ∈ live) :
    b.addr + b.requested ≤ b.chunk.guardAddr ∧
      b.chunk.guardAddr + patternSize = b.addr + b.size := by
  obtain ⟨_, sized⟩ := sound.sized b member
  unfold Chunk.guardAddr Block.chunk
  dsimp only
  omega

theorem checkChunk_eq (memory : Nat → UInt8) (b : Block) :
    checkChunk memory b.chunk = true ↔ ¬ Intact memory b := by
  unfold checkChunk Intact
  simp

/-- The slot found for a live block is its own. -/
theorem vacate_live (sound : Sound live s) (member : b ∈ live) :
    ∃ chunks, Slots.vacate (fun c => c.p == b.addr) s.chunks = some (b.chunk, chunks) ∧
      chunks.length = chunksMax ∧
      (Slots.entries chunks).Perm ((without b.addr live).map Block.chunk) := by
  cases vacated : Slots.vacate (fun c => c.p == b.addr) s.chunks with
  | none =>
    have listed : b.chunk ∈ Slots.entries s.chunks :=
      sound.slots.mem_iff.mpr (List.mem_map.mpr ⟨b, member, rfl⟩)
    exact absurd (by simp [Block.chunk]) (Slots.vacate_eq_none_iff.mp vacated _ listed)
  | some found =>
    obtain ⟨c, chunks⟩ := found
    obtain ⟨hit, length, permuted⟩ := Slots.vacate_spec vacated
    have listed : c ∈ live.map Block.chunk :=
      sound.slots.mem_iff.mp (permuted.mem_iff.mpr List.mem_cons_self)
    obtain ⟨b', member', rfl⟩ := List.mem_map.mp listed
    obtain rfl : b' = b :=
      List.inj_on_of_nodup_map sound.addrs member' member (by simpa [Block.chunk] using hit)
    have others := (perm_without sound.addrs member).map Block.chunk
    exact ⟨chunks, rfl, length.trans sound.table,
      ((permuted.symm.trans sound.slots).trans others).cons_inv⟩

/-- A tampered block is reported when it is given back, another is taken from the table. -/
theorem removeChunk_live (sound : Sound live s) (member : b ∈ live) :
    (¬ Intact s.memory b → removeChunk s b.addr = (none, { s with exited := some .checkNotOk })) ∧
    (Intact s.memory b → ∃ chunks,
      removeChunk s b.addr = (some b.chunk, { s with chunks := chunks }) ∧
        Sound (without b.addr live) { s with chunks := chunks }) := by
  obtain ⟨chunks, vacated, length, permuted⟩ := vacate_live sound member
  unfold removeChunk
  rw [vacated]
  dsimp only
  constructor
  · intro tampered
    rw [if_pos ((checkChunk_eq s.memory b).mpr tampered)]
  · intro intact
    rw [if_neg (fun tampered => (checkChunk_eq s.memory b).mp tampered intact)]
    exact ⟨chunks, rfl, sound.without b.addr sound.running length permuted⟩

/-! ### The calls -/

theorem sameGuard_of_disjoint (sound : Sound live s) (member : b ∈ live) {span : Span}
    (apart : b.span.Disjoint span) {memory' : Nat → UInt8}
    (same : ∀ x, ¬ span.Contains x → memory' x = s.memory x) :
    SameGuard s.memory memory' b := by
  obtain ⟨behind, stop⟩ := guard_inside sound member
  intro x low high
  refine same x (apart x ⟨?_, ?_⟩)
  · dsimp only [Block.span]
    omega
  · dsimp only [Block.span, Span.stop]
    omega

theorem length_eq (sound : Sound live s) : (Slots.entries s.chunks).length = live.length := by
  rw [sound.slots.length_eq, List.length_map]

/-- A block that is stored gets a slot and a guard, and nothing outside it is written. -/
theorem storeChunk_sound (sound : Sound live s) (room : live.length < chunksMax) {a n m : Nat}
    (fresh : Fresh live a m) (fits : n + patternSize ≤ m) :
    Sound (⟨a, n, m⟩ :: live) (storeChunk s a m) ∧
      Intact (storeChunk s a m).memory ⟨a, n, m⟩ ∧
      ∀ x, ¬ Span.Contains ⟨a, m⟩ x → (storeChunk s a m).memory x = s.memory x := by
  obtain ⟨nonnull, apart⟩ := fresh
  have slot : (Slots.entries s.chunks).length < s.chunks.length := by
    rw [length_eq sound, sound.table]
    exact room
  obtain ⟨chunks, length, permuted, stored⟩ := storeChunk_spec slot a m
  rw [stored]
  refine ⟨⟨sound.running, length.trans sound.table, ?_, ?_, ?_, ?_⟩, ?_, ?_⟩
  · exact permuted.trans (sound.slots.cons _)
  · refine List.nodup_cons.mpr ⟨fun inside => ?_, sound.addrs⟩
    obtain ⟨b, member, same⟩ := List.mem_map.mp inside
    exact (apart b member).1 same.symm
  · exact List.pairwise_cons.mpr ⟨fun b member => (apart b member).2.symm, sound.apart⟩
  · exact List.forall_mem_cons.mpr ⟨⟨nonnull, fits⟩, sound.sized⟩
  · exact load_store_self s.memory _ bigPattern
  · intro x outside
    have stop : Chunk.guardAddr ⟨a, m⟩ + patternSize = a + m := by
      unfold Chunk.guardAddr
      dsimp only
      omega
    have start : a ≤ Chunk.guardAddr ⟨a, m⟩ := by omega
    exact @store_outside_span _ s.memory ⟨a, m⟩ _ _ _ start (Nat.le_of_eq stop) outside

theorem malloc_advances (sound : Sound live s) {n a : Nat}
    (legal : Legal bits live (.malloc n a)) (fits : Fits bits n) :
    Advances (.malloc n a) live (liveAfter bits live (.malloc n a)) s (bigMalloc bits s n a) := by
  obtain ⟨room, fresh⟩ := legal
  obtain ⟨sound', intact, outside⟩ := storeChunk_sound sound room fresh fits
  have keeps : ∀ b, ¬ Releases (.malloc n a) b := by simp [Releases]
  unfold bigMalloc
  rw [if_neg fresh.1]
  constructor
  case sound => exact sound'
  case kept =>
    intro b member _
    constructor
    · exact List.mem_cons_of_mem _ member
    · exact sameGuard_of_disjoint sound member (fresh.2 b member).2 outside
  case fresh =>
    intro b member
    rcases List.mem_cons.mp member with rfl | old
    · exact Or.inr intact
    · exact Or.inl ⟨old, keeps b⟩

theorem realloc_advances (sound : Sound live s) {q n a : Nat}
    (legal : Legal bits live (.realloc q n a)) (fits : Fits bits n)
    (intact : ∀ b ∈ live, b.addr = q → Intact s.memory b) :
    Advances (.realloc q n a) live (liveAfter bits live (.realloc q n a)) s
      (bigRealloc bits s q n a) := by
  obtain ⟨⟨b, member, rfl⟩, fresh⟩ := legal
  obtain ⟨chunks, removed, others⟩ := (removeChunk_live sound member).2 (intact b member rfl)
  have fewer : (without b.addr live).length < chunksMax := by
    have lengths := (perm_without sound.addrs member).length_eq
    have bound := Slots.entries_length_le s.chunks
    rw [length_eq sound, sound.table] at bound
    rw [List.length_cons] at lengths
    omega
  have copied := others.withMemory
    (store s.memory a (load s.memory b.addr (min b.chunk.n (scaledSize bits n))))
  obtain ⟨sound', intact', outside⟩ := storeChunk_sound copied fewer fresh fits
  unfold bigRealloc
  rw [removed]
  dsimp only
  rw [if_neg fresh.1]
  constructor
  case sound => exact sound'
  case kept =>
    intro c inside keeps
    have other : c ∈ without b.addr live :=
      mem_without.mpr ⟨inside, fun same => keeps (Or.inr ⟨n, a, by rw [same]⟩)⟩
    constructor
    · exact List.mem_cons_of_mem _ other
    · apply sameGuard_of_disjoint sound inside (fresh.2 c other).2
      intro x apart
      rw [outside x apart]
      apply store_outside_span s.memory (Nat.le_refl _) _ apart
      rw [load_length]
      exact Nat.add_le_add_left (Nat.min_le_right _ _) a
  case fresh =>
    intro c inside
    rcases List.mem_cons.mp inside with rfl | old
    · exact Or.inr intact'
    · obtain ⟨old, other⟩ := mem_without.mp old
      exact Or.inl ⟨old, by simp [Releases, Ne.symm other]⟩

theorem free_advances (sound : Sound live s) {q : Nat} (legal : Legal bits live (.free q))
    (intact : ∀ b ∈ live, b.addr = q → Intact s.memory b) :
    Advances (.free q) live (liveAfter bits live (.free q)) s (bigFree s q) := by
  have kept : ∀ b ∈ live, ¬ Releases (.free q) b → b ∈ without q live := fun b member keeps =>
    mem_without.mpr ⟨member, fun same => keeps (Or.inl (by rw [same]))⟩
  have old : ∀ b ∈ without q live, b ∈ live ∧ ¬ Releases (.free q) b := by
    intro b member
    obtain ⟨old, other⟩ := mem_without.mp member
    exact ⟨old, by simp [Releases, Ne.symm other]⟩
  rcases legal with rfl | ⟨b, member, rfl⟩
  · have all : without 0 live = live := List.filter_eq_self.mpr fun b member => by
      simpa using (sound.sized b member).1
    have sound' : Sound (without 0 live) s := by
      rw [all]
      exact sound
    exact ⟨sound', fun b member keeps => ⟨kept b member keeps, fun _ _ _ => rfl⟩,
      fun b member => Or.inl (old b member)⟩
  · obtain ⟨chunks, removed, others⟩ := (removeChunk_live sound member).2 (intact b member rfl)
    unfold bigFree
    rw [if_neg (sound.sized b member).1, removed]
    exact ⟨others, fun c inside keeps => ⟨kept c inside keeps, fun _ _ _ => rfl⟩,
      fun c inside => Or.inl (old c inside)⟩

theorem checkChunks_intact (sound : Sound live s) (intact : ∀ b ∈ live, Intact s.memory b) :
    checkChunks s = s := by
  unfold checkChunks
  refine if_neg fun reported => ?_
  obtain ⟨c, listed, tampered⟩ := List.any_eq_true.mp reported
  obtain ⟨b, member, rfl⟩ := List.mem_map.mp (sound.slots.mem_iff.mp listed)
  exact (checkChunk_eq s.memory b).mp tampered (intact b member)

theorem checkChunks_tampered (sound : Sound live s) (member : b ∈ live)
    (tampered : ¬ Intact s.memory b) :
    (checkChunks s).exited = some .corruption := by
  have reported : (Slots.entries s.chunks).any (checkChunk s.memory) = true :=
    List.any_eq_true.mpr ⟨b.chunk, sound.slots.mem_iff.mpr (List.mem_map.mpr ⟨b, member, rfl⟩),
      (checkChunk_eq s.memory b).mpr tampered⟩
  rw [checkChunks, if_pos reported]

theorem write_advances (sound : Sound live s) {address : Nat} {byte : UInt8}
    (legal : Legal bits live (.write address byte)) :
    Advances (.write address byte) live live s
      { s with memory := store s.memory address [byte] } := by
  have keeps : ∀ b, ¬ Releases (.write address byte) b := by simp [Releases]
  have same : ∀ b ∈ live, SameGuard s.memory (store s.memory address [byte]) b := by
    intro b member x low high
    obtain ⟨behind, stop⟩ := guard_inside sound member
    apply store_outside
    rw [List.length_singleton]
    -- The program writes before the guard of a block, or outside the block.
    by_contra here
    obtain rfl : x = address := by omega
    have inside := legal b member ⟨by dsimp only [Block.span]; omega,
      by dsimp only [Block.span, Span.stop]; omega⟩
    omega
  exact ⟨sound.withMemory _, fun b member _ => ⟨member, same b member⟩,
    fun b member => Or.inl ⟨member, keeps b⟩⟩

/-- A legal call whose size fits, on a block with its guard, advances. -/
theorem memStep_advances (sound : Sound live s) {call : MemCall} (legal : Legal bits live call)
    (fits : ∀ n ∈ request call, Fits bits n)
    (checked : call = .check → ∀ b ∈ live, Intact s.memory b)
    (released : ∀ b ∈ live, Releases call b → Intact s.memory b) :
    Advances call live (liveAfter bits live call) s (memStep bits s call).1 := by
  rw [memStep_running sound.running]
  cases call with
  | malloc n a => exact malloc_advances sound legal (fits n rfl)
  | realloc q n a =>
    exact realloc_advances sound legal (fits n rfl) fun b member same =>
      released b member (Or.inr ⟨n, a, by rw [same]⟩)
  | free q =>
    exact free_advances sound legal fun b member same =>
      released b member (Or.inl (by rw [same]))
  | check =>
    dsimp only
    rw [checkChunks_intact sound (checked rfl)]
    exact ⟨sound, fun b member _ => ⟨member, fun _ _ _ => rfl⟩,
      fun b member => Or.inl ⟨member, by simp [Releases]⟩⟩
  | write address byte => exact write_advances sound legal

/-! ### Runs -/

@[simp] theorem liveFrom_concat (calls : List MemCall) (call : MemCall) :
    liveFrom bits live (calls ++ [call]) = liveAfter bits (liveFrom bits live calls) call := by
  simp [liveFrom]

theorem fits_throughout {start : MemState} {calls : List MemCall}
    (fits : ∀ n ∈ requests calls, Fits bits n) :
    Run.Throughout (memStep bits) (fun _ _ call => ∀ n ∈ request call, Fits bits n) start
      calls :=
  Run.throughout_of_forall (fun call => ∀ n ∈ request call, Fits bits n)
    fun call member n asked => fits n (List.mem_filterMap.mpr ⟨call, member, asked⟩)

/-- The invariant with all guards. -/
def Guarded (live : List Block) (s : MemState) : Prop :=
  Sound live s ∧ ∀ b ∈ live, Intact s.memory b

theorem Guarded.tracked (guarded : Guarded live s) : Tracked live s where
  running := guarded.1.running
  slots := guarded.1.slots
  addrs := guarded.1.addrs
  guards := fun b member => ⟨(guard_inside guarded.1 member).1, guarded.2 b member⟩

theorem memStep_guarded (guarded : Guarded live s) {call : MemCall}
    (legal : Legal bits live call) (fits : ∀ n ∈ request call, Fits bits n) :
    Guarded (liveAfter bits live call) (memStep bits s call).1 := by
  obtain ⟨sound, intact⟩ := guarded
  have advances := memStep_advances sound legal fits (fun _ => intact) fun b member _ =>
    intact b member
  refine ⟨advances.sound, fun b member => ?_⟩
  rcases advances.fresh b member with ⟨old, keeps⟩ | new
  · exact (advances.kept b old keeps).2.intact_iff.mpr (intact b old)
  · exact new

theorem memStart_guarded (memory : Nat → UInt8) : Guarded [] (memStart memory) := by
  refine ⟨⟨rfl, List.length_replicate, ?_, List.nodup_nil, List.Pairwise.nil, by simp⟩, by simp⟩
  rw [memStart, Slots.entries_replicate_none]
  exact List.Perm.nil

theorem memState_guarded {memory : Nat → UInt8} {calls : List MemCall}
    (legal : Run.Throughout (memStep bits)
      (fun before _ call => Legal bits (ChunkTracking.live bits before) call)
      (memStart memory) calls)
    (fits : ∀ n ∈ requests calls, Fits bits n) :
    Guarded (ChunkTracking.live bits calls) (memState bits memory calls) := by
  refine Run.history_invariant_throughout (memStep bits)
    (fun before s => Guarded (ChunkTracking.live bits before) s) (memStart_guarded memory) ?_
    calls (legal.and (fits_throughout fits))
  intro before call guarded meets
  rw [ChunkTracking.live, liveFrom_concat]
  exact memStep_guarded guarded meets.1 meets.2

/-! ### A guard that is overwritten -/

/-- The guard of one block is damaged, all others are whole. -/
structure Damaged (b : Block) (live : List Block) (s : MemState) : Prop where
  sound : Sound live s
  member : b ∈ live
  damaged : ¬ Intact s.memory b
  others : ∀ c ∈ live, c ≠ b → Intact s.memory c

theorem damaged_of_tampers (guarded : Guarded live s) (member : b ∈ live) {address : Nat}
    {byte : UInt8} (tampers : Tampers s.memory b address byte) :
    Damaged b live { s with memory := store s.memory address [byte] } := by
  obtain ⟨sound, intact⟩ := guarded
  obtain ⟨low, high, other⟩ := tampers
  obtain ⟨behind, stop⟩ := guard_inside sound member
  refine ⟨sound.withMemory _, member, fun whole => other ?_, fun c inside different => ?_⟩
  · have written : store s.memory address [byte] address = byte :=
      store_inside s.memory (show 0 < [byte].length by simp)
    rw [← written]
    exact eq_of_load_eq (whole.trans (intact b member).symm) low high
  · have symmetric : Std.Symm fun b c : Block => b.span.Disjoint c.span :=
      ⟨fun _ _ => Span.Disjoint.symm⟩
    have apart : c.span.Disjoint b.span := sound.apart.forall inside member different
    refine (sameGuard_of_disjoint sound inside apart fun x outside => ?_).intact_iff.mpr
      (intact c inside)
    refine store_outside_span s.memory ?_ ?_ outside
    · dsimp only [Block.span]
      omega
    · rw [List.length_singleton]
      dsimp only [Block.span, Span.stop]
      omega

theorem memStep_damaged (damaged : Damaged b live s) {call : MemCall}
    (legal : Legal bits live call) (fits : ∀ n ∈ request call, Fits bits n)
    (apart : call ≠ .check ∧ ¬ Releases call b) :
    Damaged b (liveAfter bits live call) (memStep bits s call).1 := by
  have advances := memStep_advances damaged.sound legal fits (fun check => absurd check apart.1)
    fun c member releases => damaged.others c member (by
      rintro rfl
      exact apart.2 releases)
  obtain ⟨stays, same⟩ := advances.kept b damaged.member apart.2
  refine ⟨advances.sound, stays, fun whole => damaged.damaged (same.intact_iff.mp whole), ?_⟩
  intro c member different
  rcases advances.fresh c member with ⟨old, keeps⟩ | new
  · exact (advances.kept c old keeps).2.intact_iff.mpr (damaged.others c old different)
  · exact new

/-- The next check reports the damage, and so do the calls that give the block back. -/
theorem Damaged.reported (damaged : Damaged b live s) :
    (memStep bits s .check).1.exited = some .corruption ∧
      (memStep bits s (.free b.addr)).1.exited = some .checkNotOk ∧
      ∀ n a, (memStep bits s (.realloc b.addr n a)).1.exited = some .checkNotOk := by
  have removed := (removeChunk_live damaged.sound damaged.member).1 damaged.damaged
  refine ⟨?_, ?_, fun n a => ?_⟩
  · rw [memStep_running damaged.sound.running]
    exact checkChunks_tampered damaged.sound damaged.member damaged.damaged
  · rw [memStep_running damaged.sound.running]
    dsimp only
    rw [bigFree, if_neg (damaged.sound.sized b damaged.member).1, removed]
  · rw [memStep_running damaged.sound.running]
    dsimp only
    rw [bigRealloc, removed]

end

theorem detects_of_guarded {bits : Nat} {memory : Nat → UInt8} {calls : List MemCall}
    (guarded : Guarded (live bits calls) (memState bits memory calls)) :
    Detects bits memory calls := by
  intro b member address byte tampers later legal fits apart
  have written : memState bits memory (calls ++ [.write address byte]) =
      { memState bits memory calls with
        memory := store (memState bits memory calls).memory address [byte] } := by
    rw [memState, Run.final_concat]
    exact memStep_running guarded.1.running _
  have damaged : Damaged b (liveFrom bits (live bits calls) later)
      (Run.final (memStep bits) (memState bits memory (calls ++ [.write address byte])) later) := by
    refine Run.history_invariant_throughout (memStep bits)
      (fun before s => Damaged b (liveFrom bits (live bits calls) before) s) ?_ ?_ later
      ((legal.and (fits_throughout fits)).and
        (Run.throughout_of_forall (fun call => call ≠ .check ∧ ¬ Releases call b) apart))
    · rw [written]
      exact damaged_of_tampers guarded member tampers
    · intro before call damaged meets
      rw [liveFrom_concat]
      exact memStep_damaged damaged meets.1.1 meets.1.2 meets.2
  have whole : memState bits memory (calls ++ .write address byte :: later) =
      Run.final (memStep bits) (memState bits memory (calls ++ [.write address byte])) later := by
    rw [memState, memState, ← Run.final_append, List.append_assoc, List.singleton_append]
  dsimp only
  rw [whole]
  exact damaged.reported

/-- In every run of legal calls the table tracks the live blocks and overwritten guards are
found, exactly if no request is so large that its scaled size wraps around. -/
theorem chunks_track_live_iff (bits : Nat) (memory : Nat → UInt8) (calls : List MemCall)
    (legal : Run.Throughout (memStep bits)
      (fun before _ call => Legal bits (live bits before) call) (memStart memory) calls) :
    (TracksThroughout bits memory calls ∧ Detects bits memory calls) ↔
      ∀ n ∈ requests calls, Fits bits n := by
  constructor
  · rintro ⟨tracks, _⟩ n request
    obtain ⟨call, member, asked⟩ := List.mem_filterMap.mp request
    obtain ⟨before, after, rfl⟩ := List.append_of_mem member
    have allowed := legal before call after rfl
    have tracked := tracks (before ++ [call]) after (by simp)
    rw [live, liveFrom_concat] at tracked
    have guard : ∀ a, a ≠ 0 → ⟨a, n, scaledSize bits n⟩ ∈ liveAfter bits (live bits before) call →
        Fits bits n := by
      intro a nonnull inside
      have behind := (tracked.guards _ inside).1
      unfold Fits
      unfold Chunk.guardAddr Block.chunk at behind
      dsimp only at behind
      omega
    cases call with
    | malloc n' a =>
      cases asked
      exact guard a allowed.2.1 List.mem_cons_self
    | realloc q n' a =>
      cases asked
      exact guard a allowed.2.1 List.mem_cons_self
    | free | check | write => cases asked
  · intro fits
    refine ⟨fun before after split => ?_, detects_of_guarded (memState_guarded legal fits)⟩
    subst split
    refine (memState_guarded legal.left fun n request => fits n ?_).tracked
    rw [requests, List.filterMap_append]
    exact List.mem_append_left _ request

/-- A block that grows and is given back. -/
def growing : List MemCall := [.malloc 5 4096, .realloc 4096 50 8192, .free 8192]

theorem growing_legal (memory : Nat → UInt8) :
    Run.Throughout (memStep 64) (fun before _ call => Legal 64 (live 64 before) call)
      (memStart memory) growing := by
  simp [growing, Run.throughout_cons, Run.throughout_nil, Legal, IsLive, Fresh, live, liveFrom,
    liveAfter, without, chunksMax]

theorem chunks_track_live_iff_growing :
    (TracksThroughout 64 (fun _ => 0) growing ∧ Detects 64 (fun _ => 0) growing) ↔
      ∀ n ∈ requests growing, Fits 64 n :=
  chunks_track_live_iff 64 (fun _ => 0) growing (growing_legal _)

example : ∀ n ∈ requests growing, Fits 64 n := by decide

/-- The request of `mrsend` under `report_size -2`: 140 bytes are allocated for it, and the
guard lies in what was requested. -/
theorem scaledSize_wraps :
    Run.Throughout (memStep 64) (fun before _ call => Legal 64 (live 64 before) call)
        (memStart fun _ => 0) [.malloc (2 ^ 64 - 1) 4096] ∧
      scaledSize 64 (2 ^ 64 - 1) = 140 ∧
      ¬ TracksThroughout 64 (fun _ => 0) [.malloc (2 ^ 64 - 1) 4096] := by
  have size : scaledSize 64 (2 ^ 64 - 1) = 140 := by decide
  refine ⟨?_, size, fun tracks => ?_⟩
  · simp [Run.throughout_cons, Run.throughout_nil, Legal, Fresh, live, liveFrom, chunksMax]
  · have tracked := tracks [.malloc (2 ^ 64 - 1) 4096] [] rfl
    have behind := (tracked.guards ⟨4096, 2 ^ 64 - 1, scaledSize 64 (2 ^ 64 - 1)⟩
      List.mem_cons_self).1
    rw [size] at behind
    exact absurd behind (by decide)

end MrBig.Guarantees.ChunkTracking
