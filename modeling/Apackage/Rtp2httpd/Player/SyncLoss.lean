import Apackage.Rtp2httpd.Player.FetchLoader
import Apackage.Rtp2httpd.Player.TsSlices
import Mathlib.Data.Nat.Find
import Mathlib.Logic.Function.Iterate

/-
  Where the packet loop goes after a damaged packet.

  At a sync byte of 0x47 the loop goes one packet on. At any other byte it ends, and what it did not
  take is presented again with the next chunk: the next call starts at the same packet, or, with
  packets of 192 bytes, behind the four bytes of the time stamp. So whatever the chunks are, the
  places at which the demuxer looks for a packet form one walk over the stream (`walkStep`).
-/

namespace Apackage.Rtp2httpd.Player

open List TsParser

/-- Bytes `start` to `start + n` of a stream. -/
def slice (S : ℕ → UInt8) (start n : ℕ) : List UInt8 := (List.range n).map fun i => S (start + i)

section Slices

variable (S : ℕ → UInt8)

@[simp] theorem length_slice (start n : ℕ) : (slice S start n).length = n := by
  rw [slice, length_map, length_range]

theorem getElem?_slice {n i : ℕ} (h : i < n) (start : ℕ) :
    (slice S start n)[i]? = some (S (start + i)) := by
  rw [slice, getElem?_map, getElem?_range h, Option.map_some]

theorem slice_append (start n m : ℕ) :
    slice S start n ++ slice S (start + n) m = slice S start (n + m) := by
  unfold slice
  rw [range_add, map_append, List.map_map]
  congr 1
  refine map_congr_left fun i _ => ?_
  show S (start + n + i) = S (start + (n + i))
  rw [Nat.add_assoc]

theorem drop_slice {n k : ℕ} (h : k ≤ n) (start : ℕ) :
    (slice S start n).drop k = slice S (start + k) (n - k) := by
  rw [show n = k + (n - k) by omega, ← slice_append, drop_left' (length_slice S start k)]
  congr 1
  omega

theorem take_slice {n k : ℕ} (h : k ≤ n) (start : ℕ) :
    (slice S start n).take k = slice S start k := by
  rw [show n = k + (n - k) by omega, ← slice_append, take_left' (length_slice S start k)]

end Slices

section Walk

variable (S : ℕ → UInt8) (size : TsPacketSize)

def HasSync (p : ℕ) : Prop :=
  S (p + size.ats) = 0x47
  deriving Decidable

/-- Where the demuxer looks for a packet next. -/
def walkStep (p : ℕ) : ℕ :=
  if HasSync S size p then p + size.bytes else p + size.ats

def packetAt (p : ℕ) : ℤ × List UInt8 := (p, slice S (p + size.ats) 188)

/-- The packets met by the first steps of the walk. -/
def walkPackets : ℕ → ℕ → List (ℤ × List UInt8)
  | 0, _ => []
  | n + 1, p =>
    (if HasSync S size p then [packetAt S size p] else []) ++ walkPackets n (walkStep S size p)

theorem walkPackets_add (n m p : ℕ) : walkPackets S size (n + m) p =
      walkPackets S size n p ++ walkPackets S size m ((walkStep S size)^[n] p) := by
  induction n generalizing p with
  | zero => rw [Nat.zero_add]; rfl
  | succ n ih =>
    rw [Nat.succ_add, walkPackets, ih, walkPackets, append_assoc, Function.iterate_succ_apply]

theorem mem_walkPackets {n p : ℕ} {x : ℤ × List UInt8} : x ∈ walkPackets S size n p ↔
      ∃ i < n, HasSync S size ((walkStep S size)^[i] p) ∧
        x = packetAt S size ((walkStep S size)^[i] p) := by
  induction n generalizing p with
  | zero => simp [walkPackets]
  | succ n ih =>
    rw [walkPackets, mem_append, ih]
    constructor
    · rintro (h | ⟨i, hi, h⟩)
      · split at h
        · rename_i hsync
          exact ⟨0, Nat.succ_pos n, hsync, mem_singleton.1 h⟩
        · exact absurd h not_mem_nil
      · exact ⟨i + 1, Nat.succ_lt_succ hi, h⟩
    · rintro ⟨i, hi, h⟩
      cases i with
      | zero =>
        have hsync : HasSync S size p := h.1
        refine .inl ?_
        rw [if_pos hsync]
        exact mem_singleton.2 h.2
      | succ i => exact .inr ⟨i, Nat.lt_of_succ_lt_succ hi, h⟩

theorem walk_valid {v : ℕ} (hv : ∀ k, HasSync S size (v + k * size.bytes)) (k : ℕ) :
    (walkStep S size)^[k] v = v + k * size.bytes := by
  induction k with
  | zero => rw [Nat.zero_mul]; rfl
  | succ k ih =>
    rw [Function.iterate_succ_apply', ih, walkStep, if_pos (hv k), Nat.succ_mul, Nat.add_assoc]

theorem walk_reaches_iff (hats : size.ats = 0) (start v : ℕ) :
    (∃ i, (walkStep S size)^[i] start = v) ↔
      ∃ n, v = start + n * size.bytes ∧ ∀ k < n, HasSync S size (start + k * size.bytes) := by
  constructor
  · rintro ⟨i, rfl⟩
    induction i with
    | zero => exact ⟨0, by rw [Nat.zero_mul]; rfl, fun k hk => absurd hk (Nat.not_lt_zero k)⟩
    | succ i ih =>
      obtain ⟨n, hn, hall⟩ := ih
      rw [Function.iterate_succ_apply', walkStep]
      split
      · rename_i hsync
        refine ⟨n + 1, by rw [hn, Nat.succ_mul, Nat.add_assoc], fun k hk => ?_⟩
        rcases Nat.lt_succ_iff_lt_or_eq.1 hk with hk | rfl
        · exact hall k hk
        · rwa [hn] at hsync
      · exact ⟨n, by rw [hats, Nat.add_zero, hn], hall⟩
  · rintro ⟨n, rfl, hall⟩
    refine ⟨n, ?_⟩
    induction n with
    | zero => rw [Nat.zero_mul]; rfl
    | succ n ih =>
      rw [Function.iterate_succ_apply', ih fun k hk => hall k (Nat.lt_succ_of_lt hk), walkStep,
        if_pos (hall n (Nat.lt_succ_self n)), Nat.succ_mul, Nat.add_assoc]

end Walk

variable {δ : Type*} {S : ℕ → UInt8} {size : TsPacketSize}
  {onPacket : δ → List UInt8 → ℕ → ℤ → δ} {onChunkEnd : δ → δ}

/-- The loop was presented `n` bytes from `pos` on and made `j` steps of the walk from `p`. -/
structure Walked (S : ℕ → UInt8) (size : TsPacketSize) (pos n p : ℕ) (q : TsParser δ) (j : ℕ)
    (r : ℕ × TsParser δ) : Prop where
  size_eq : r.2.tsPacketSize = size
  first : r.2.firstParse = q.firstParse
  place : pos + r.1 = (walkStep S size)^[j] p
  within : r.1 ≤ n
  parsed : r.2.parsed = q.parsed ++ walkPackets S size j p
  moves : p + size.bytes ≤ pos + n → 0 < j
  stops : n < r.1 + size.bytes ∨ ∃ i, j = i + 1 ∧ ¬ HasSync S size ((walkStep S size)^[i] p)

theorem isSyncByte_slice {n pos o : ℕ} (h : o + size.bytes ≤ n) :
    isSyncByte (slice S pos n) (o + size.ats) = true ↔ HasSync S size (pos + o) := by
  have hlt : o + size.ats < n := by
    have := size.bytes_eq
    omega
  unfold isSyncByte HasSync
  rw [getElem?_slice S hlt, decide_eq_true_iff, Option.some_inj, Nat.add_assoc]

theorem packetLoop_walked {pos n : ℕ} (fuel : ℕ) {o : ℕ} {q : TsParser δ} (hle : o ≤ n)
    (hfuel : n ≤ o + fuel) (hsize : q.tsPacketSize = size) :
    ∃ j, Walked S size pos n (pos + o) q j (packetLoop onPacket (slice S pos n) pos fuel o q) := by
  have hbytes := size.bytes_eq
  induction fuel generalizing o q with
  | zero =>
    exact ⟨0, hsize, rfl, rfl, hle, (append_nil _).symm, fun h => by omega,
      .inl (by show n < o + size.bytes; omega)⟩
  | succ fuel ih =>
    rw [packetLoop, hsize, length_slice]
    split
    · rename_i hfits
      dsimp only
      split
      · rename_i hsync
        rw [isSyncByte_slice hfits] at hsync
        obtain ⟨j, hj⟩ := ih (o := o + size.ats + 188 + size.parity)
          (q := q.parsePacket onPacket (slice S pos n) (o + size.ats) (pos + o))
          (by omega) (by omega) hsize
        have hnext : walkStep S size (pos + o) = pos + (o + size.ats + 188 + size.parity) := by
          rw [walkStep, if_pos hsync]
          omega
        refine ⟨j + 1, hj.size_eq, hj.first, ?_, hj.within, ?_, fun _ => Nat.succ_pos j, ?_⟩
        · rw [Function.iterate_succ_apply, hnext]
          exact hj.place
        · rw [hj.parsed, walkPackets, if_pos hsync, hnext, ← append_assoc]
          congr 1
          rw [parsePacket, drop_slice S (by omega), take_slice S (by omega), packetAt, Int.natCast_add,
            Nat.add_assoc]
        · refine hj.stops.imp id ?_
          rintro ⟨i, rfl, hbad⟩
          exact ⟨i + 1, rfl, by rwa [Function.iterate_succ_apply, hnext]⟩
      · rename_i hsync
        rw [isSyncByte_slice hfits] at hsync
        refine ⟨1, hsize, rfl, ?_, ?_, ?_, fun _ => Nat.one_pos, .inr ⟨0, rfl, hsync⟩⟩
        · show pos + (o + size.ats) = walkStep S size (pos + o)
          rw [walkStep, if_neg hsync, Nat.add_assoc]
        · omega
        · rw [walkPackets, if_neg hsync]
          exact (append_nil _).symm
    · rename_i hshort
      exact ⟨0, hsize, rfl, rfl, hle, (append_nil _).symm, fun h => by omega,
        .inl (by show n < o + size.bytes; omega)⟩

/-- The bytes the first call leaves out. -/
def TsParser.skipped (q : TsParser δ) : ℕ :=
  if q.firstParse then q.syncOffset else 0

theorem parseChunks_walked {pos n : ℕ} {q : TsParser δ} (hsize : q.tsPacketSize = size)
    (hle : q.skipped ≤ n) :
    ∃ j, Walked S size pos n (pos + q.skipped) { q with firstParse := false } j
      (parseChunks onPacket onChunkEnd q (slice S pos n) pos) := by
  obtain ⟨j, hj⟩ : ∃ j, Walked S size pos n (pos + q.skipped) { q with firstParse := false } j
      (packetLoop onPacket (slice S pos n) pos n q.skipped { q with firstParse := false }) :=
    packetLoop_walked n hle (Nat.le_add_left n _) hsize
  refine ⟨j, ?_⟩
  unfold parseChunks
  rw [length_slice]
  exact ⟨hj.size_eq, hj.first, hj.place, hj.within, hj.parsed, hj.moves, hj.stops⟩

/-- Of the `total` bytes that have come the loader holds those behind the place the walk from
    `start` has reached after `j` steps. -/
structure Synced (S : ℕ → UInt8) (size : TsPacketSize) (start total j : ℕ)
    (s : FetchLoader (TsParser δ)) : Prop where
  running : s.paused = false
  size_eq : s.sink.tsPacketSize = size
  place : s.consumed.length + s.sink.skipped = (walkStep S size)^[j] start
  within : s.consumed.length ≤ total
  stash : s.stash = slice S s.consumed.length (total - s.consumed.length)
  stashStart : s.stash ≠ [] → s.stashByteStart = s.consumed.length
  parsed : s.sink.parsed = walkPackets S size j start

theorem synced_opened (S : ℕ → UInt8) (size : TsPacketSize) (start : ℕ) (media : δ) :
    Synced S size start 0 0 (.opened .range (.probed size start media)) where
  running := rfl
  size_eq := rfl
  place := Nat.zero_add start
  within := Nat.le_refl 0
  stash := rfl
  stashStart h := absurd rfl h
  parsed := rfl

theorem Synced.arrive {start total j n : ℕ} {s : FetchLoader (TsParser δ)}
    (h : Synced S size start total j s) (hle : (walkStep S size)^[j] start ≤ total + n) :
    ∃ j', j ≤ j' ∧ ((walkStep S size)^[j] start + size.bytes ≤ total + n → j < j') ∧
      Synced S size start (total + n) j' (s.onFetchChunkArrival (parseChunks onPacket onChunkEnd)
        (slice S total n) total) ∧
      (s.onFetchChunkArrival (parseChunks onPacket onChunkEnd)
        (slice S total n) total).sink.firstParse = false ∧
      ((s.onFetchChunkArrival (parseChunks onPacket onChunkEnd)
        (slice S total n) total).stash.length < size.bytes ∨
        ∃ i, j ≤ i ∧ ¬ HasSync S size ((walkStep S size)^[i] start)) := by
  obtain ⟨hrun, hsize, hplace, hwithin, hstash, hstart, hparsed⟩ := h
  generalize hpos : s.consumed.length = pos at *
  have hdata : s.stash ++ slice S total n = slice S pos (total + n - pos) := by
    rw [hstash, show slice S total n = slice S (pos + (total - pos)) n by congr 1; omega,
      slice_append]
    congr 1
    omega
  have hempty : s.stash = [] → (total : ℤ) = pos := fun hnil => by
    have := congrArg List.length (hstash.symm.trans hnil)
    rw [length_slice, length_nil] at this
    omega
  obtain ⟨start', hstart', heq⟩ := s.onFetchChunkArrival_eq (parseChunks onPacket onChunkEnd)
    (slice S total n) hrun hempty hstart
  rw [heq]
  rw [hdata] at hstart' ⊢
  have hm : pos + (total + n - pos) = total + n := by omega
  generalize total + n - pos = m at hstart' hm ⊢
  obtain ⟨k, hk⟩ : ∃ k, Walked S size pos m (pos + s.sink.skipped)
      { s.sink with firstParse := false } k
      (parseChunks onPacket onChunkEnd s.sink (slice S pos m) pos) :=
    parseChunks_walked hsize (by omega)
  generalize parseChunks onPacket onChunkEnd s.sink (slice S pos m) pos = r at hk hstart' ⊢
  rw [hplace] at hk
  have hskip : r.2.skipped = 0 := if_neg fun h => Bool.false_ne_true (hk.first.symm.trans h)
  have hlen : (s.consumed ++ (slice S pos m).take r.1).length = pos + r.1 := by
    rw [length_append, hpos, take_slice S hk.within, length_slice]
  have hrest : (slice S pos m).drop r.1 = slice S (pos + r.1) (m - r.1) :=
    drop_slice S hk.within pos
  have hsum : (walkStep S size)^[k] ((walkStep S size)^[j] start) =
      (walkStep S size)^[j + k] start := by
    rw [Nat.add_comm, Function.iterate_add_apply]
  refine ⟨j + k, Nat.le_add_right j k, fun hfits => ?_, ⟨hrun, hk.size_eq, ?_, ?_, ?_, ?_, ?_⟩,
    hk.first, ?_⟩
  · have := hk.moves (by omega)
    omega
  · show (s.consumed ++ (slice S pos m).take r.1).length + r.2.skipped = _
    rw [hlen, hskip, ← hsum, ← hk.place, Nat.add_zero]
  · show (s.consumed ++ (slice S pos m).take r.1).length ≤ total + n
    have := hk.within
    omega
  · show (slice S pos m).drop r.1 = slice S (s.consumed ++ (slice S pos m).take r.1).length
      (total + n - (s.consumed ++ (slice S pos m).take r.1).length)
    rw [hlen, hrest]
    congr 1
    omega
  · intro hne
    show start' = (s.consumed ++ (slice S pos m).take r.1).length
    rw [hlen, hstart' hne, Int.natCast_add]
  · show r.2.parsed = _
    rw [hk.parsed, walkPackets_add]
    exact congrArg (· ++ _) hparsed
  · show ((slice S pos m).drop r.1).length < size.bytes ∨ _
    rw [hrest, length_slice]
    refine hk.stops.imp (fun h => by have := size.bytes_pos; omega) ?_
    rintro ⟨i, rfl, hbad⟩
    refine ⟨j + i, Nat.le_add_right j i, ?_⟩
    rwa [Nat.add_comm, Function.iterate_add_apply]

/-- How many bytes the first chunks have. -/
def received (c : ℕ → ℕ) : ℕ → ℕ
  | 0 => 0
  | t + 1 => received c t + c t

theorem received_mono (c : ℕ → ℕ) {t t' : ℕ} (h : t ≤ t') : received c t ≤ received c t' := by
  induction h with
  | refl => exact Nat.le_refl _
  | step _ ih => exact Nat.le_trans ih (Nat.le_add_right _ _)

theorem le_received {c : ℕ → ℕ} (hc : ∀ t, 0 < c t) (t : ℕ) : t ≤ received c t := by
  induction t with
  | zero => exact Nat.zero_le _
  | succ t ih =>
    have := hc t
    rw [received]
    omega

section Feed

variable (onPacket : δ → List UInt8 → ℕ → ℤ → δ) (onChunkEnd : δ → δ) (S : ℕ → UInt8)
  (c : ℕ → ℕ) (size : TsPacketSize) (start : ℕ) (media : δ)

/-- The loader and its demuxer after some chunks; chunk `t` has `c t` bytes. -/
def feed : ℕ → FetchLoader (TsParser δ)
  | 0 => .opened .range (.probed size start media)
  | t + 1 =>
    (feed t).onFetchChunkArrival (parseChunks onPacket onChunkEnd)
      (slice S (received c t) (c t)) (received c t)

/-- The stream is read up to `v`, the packets from there on are parsed, and what is presented
    again does not grow without bound. -/
structure Recovers (S : ℕ → UInt8) (size : TsPacketSize) (v : ℕ)
    (states : ℕ → FetchLoader (TsParser δ)) : Prop where
  consumed : ∃ t, v ≤ (states t).consumed.length
  parsed : ∀ k, ∃ t, packetAt S size (v + k * size.bytes) ∈ (states t).sink.parsed
  bounded : ∃ B, ∀ t, (states t).stash.length ≤ B

/-- The state after `t` chunks, `j` steps into the walk, when the next chunk reaches the place
    where the demuxer looks for a packet. -/
def Fed (t j : ℕ) : Prop :=
  Synced S size start (received c t) j (feed onPacket onChunkEnd S c size start media t) ∧
    (walkStep S size)^[j] start ≤ received c (t + 1)

variable {onPacket onChunkEnd S c size start media} {t j : ℕ}

theorem fed_zero (hstart : start ≤ c 0) : Fed onPacket onChunkEnd S c size start media 0 0 :=
  ⟨synced_opened S size start media, Nat.le_trans hstart (Nat.le_add_left _ _)⟩

theorem Fed.next (h : Fed onPacket onChunkEnd S c size start media t j) : ∃ j', j ≤ j' ∧
      ((walkStep S size)^[j] start + size.bytes ≤ received c (t + 1) → j < j') ∧
      Fed onPacket onChunkEnd S c size start media (t + 1) j' ∧
      (feed onPacket onChunkEnd S c size start media (t + 1)).sink.skipped = 0 ∧
      ((feed onPacket onChunkEnd S c size start media (t + 1)).stash.length < size.bytes ∨
        ∃ i, j ≤ i ∧ ¬ HasSync S size ((walkStep S size)^[i] start)) := by
  obtain ⟨j', hle, hmoves, hj', hfirst, hstops⟩ : ∃ j', j ≤ j' ∧
      ((walkStep S size)^[j] start + size.bytes ≤ received c (t + 1) → j < j') ∧
      Synced S size start (received c (t + 1)) j'
        (feed onPacket onChunkEnd S c size start media (t + 1)) ∧
      (feed onPacket onChunkEnd S c size start media (t + 1)).sink.firstParse = false ∧
      ((feed onPacket onChunkEnd S c size start media (t + 1)).stash.length < size.bytes ∨
        ∃ i, j ≤ i ∧ ¬ HasSync S size ((walkStep S size)^[i] start)) := h.1.arrive h.2
  have hskip : (feed onPacket onChunkEnd S c size start media (t + 1)).sink.skipped = 0 :=
    if_neg fun h => Bool.false_ne_true (hfirst.symm.trans h)
  refine ⟨j', hle, hmoves, ⟨hj', ?_⟩, hskip, hstops⟩
  have hplace := hj'.place
  have hwithin := hj'.within
  show _ ≤ received c (t + 1) + c (t + 1)
  rw [← hplace]
  rw [hskip]
  omega

theorem Fed.later (h : Fed onPacket onChunkEnd S c size start media t j) {t' : ℕ} (ht : t ≤ t') :
    ∃ j', j ≤ j' ∧ Fed onPacket onChunkEnd S c size start media t' j' := by
  induction ht with
  | refl => exact ⟨j, Nat.le_refl j, h⟩
  | step _ ih =>
    obtain ⟨j', hle, hj'⟩ := ih
    obtain ⟨j'', hle', -, hj'', -, -⟩ := hj'.next
    exact ⟨j'', Nat.le_trans hle hle', hj''⟩

theorem fed_reaches (hc : ∀ t, 0 < c t) (hstart : start ≤ c 0) (i : ℕ) :
    ∃ t j, i ≤ j ∧ Fed onPacket onChunkEnd S c size start media t j := by
  induction i with
  | zero => exact ⟨0, 0, Nat.le_refl 0, fed_zero hstart⟩
  | succ i ih =>
    obtain ⟨t, j, hij, hj⟩ := ih
    rcases Nat.lt_or_eq_of_le hij with hlt | rfl
    · exact ⟨t, j, hlt, hj⟩
    -- by then the packet at step `i` has come in full
    obtain ⟨j', hle, hj'⟩ := hj.later (Nat.le_max_left t ((walkStep S size)^[i] start + size.bytes))
    rcases Nat.lt_or_eq_of_le hle with hlt | rfl
    · exact ⟨_, j', hlt, hj'⟩
    obtain ⟨j'', -, hmoves, hj'', -, -⟩ := hj'.next
    refine ⟨_, j'', hmoves ?_, hj''⟩
    calc _ ≤ max t ((walkStep S size)^[i] start + size.bytes) := Nat.le_max_right _ _
      _ ≤ received c (max t ((walkStep S size)^[i] start + size.bytes)) := le_received hc _
      _ ≤ _ := received_mono c (Nat.le_succ _)

theorem parsed_on_walk (hstart : start ≤ c 0) {p : ℕ}
    (h : packetAt S size p ∈ (feed onPacket onChunkEnd S c size start media t).sink.parsed) :
    ∃ i, (walkStep S size)^[i] start = p := by
  have h0 : Fed onPacket onChunkEnd S c size start media 0 0 := fed_zero hstart
  obtain ⟨j, -, hj⟩ := h0.later (Nat.zero_le t)
  rw [hj.1.parsed, mem_walkPackets] at h
  obtain ⟨i, -, -, heq⟩ := h
  exact ⟨i, (Int.ofNat.inj (congrArg Prod.fst heq)).symm⟩

theorem Synced.stash_le {total : ℕ} {s : FetchLoader (TsParser δ)}
    (h : Synced S size start total j s) : s.stash.length ≤ total := by
  rw [h.stash, length_slice]
  exact Nat.sub_le _ _

theorem recovers_of_walk (hc : ∀ t, 0 < c t) (hstart : start ≤ c 0) {v i : ℕ}
    (hv : ∀ k, HasSync S size (v + k * size.bytes)) (hi : (walkStep S size)^[i] start = v) :
    Recovers S size v (feed onPacket onChunkEnd S c size start media) := by
  have hgrid : ∀ k, (walkStep S size)^[i + k] start = v + k * size.bytes := by
    intro k
    rw [Nat.add_comm, Function.iterate_add_apply, hi, walk_valid S size hv]
  have hreaches : ∀ i, ∃ t j, i ≤ j ∧ Fed onPacket onChunkEnd S c size start media t j :=
    fed_reaches hc hstart
  constructor
  · obtain ⟨t, j, hij, hj⟩ := hreaches i
    obtain ⟨j', hle, -, hj', hskip, -⟩ := hj.next
    refine ⟨t + 1, ?_⟩
    obtain ⟨k, rfl⟩ := Nat.exists_eq_add_of_le (Nat.le_trans hij hle)
    have hplace := hj'.1.place
    rw [hgrid, hskip] at hplace
    omega
  · intro k
    obtain ⟨t, j, hij, hj⟩ := hreaches (i + k + 1)
    refine ⟨t, ?_⟩
    rw [hj.1.parsed, mem_walkPackets, ← hgrid]
    exact ⟨i + k, hij, by rw [hgrid]; exact hv k, rfl⟩
  · obtain ⟨T, j, hij, hj⟩ := hreaches i
    refine ⟨received c T + size.bytes, fun t => ?_⟩
    rcases Nat.lt_or_ge T t with hlt | hle
    · obtain ⟨t, rfl⟩ : ∃ t', t = t' + 1 := ⟨t - 1, by omega⟩
      obtain ⟨j', hle', hj'⟩ := hj.later (Nat.le_of_lt_succ hlt)
      obtain ⟨j'', -, -, -, -, hshort | ⟨n, hn, hbad⟩⟩ := hj'.next
      · omega
      · obtain ⟨k, rfl⟩ := Nat.exists_eq_add_of_le (Nat.le_trans hij (Nat.le_trans hle' hn))
        rw [hgrid] at hbad
        exact absurd (hv k) hbad
    · have h0 : Fed onPacket onChunkEnd S c size start media 0 0 := fed_zero hstart
      obtain ⟨j', -, hj'⟩ := h0.later (Nat.zero_le t)
      have := hj'.1.stash_le
      have := received_mono c hle
      omega

theorem stash_unbounded (hc : ∀ t, 0 < c t) (hstart : start ≤ c 0) (hats : size.ats = 0) {i : ℕ}
    (hbad : ¬ HasSync S size ((walkStep S size)^[i] start)) (B : ℕ) :
    ∃ t, B < (feed onPacket onChunkEnd S c size start media t).stash.length := by
  have hstuck : ∀ k, (walkStep S size)^[i + k] start = (walkStep S size)^[i] start := by
    intro k
    induction k with
    | zero => rfl
    | succ k ih =>
      rw [← Nat.add_assoc, Function.iterate_succ_apply', ih, walkStep, if_neg hbad, hats,
        Nat.add_zero]
  obtain ⟨T, j, hij, hj⟩ : ∃ T j, i ≤ j ∧ Fed onPacket onChunkEnd S c size start media T j :=
    fed_reaches hc hstart i
  obtain ⟨j', hle, hj'⟩ := hj.later (Nat.le_max_left T (B + (walkStep S size)^[i] start + 1))
  obtain ⟨k, rfl⟩ := Nat.exists_eq_add_of_le (Nat.le_trans hij hle)
  refine ⟨max T (B + (walkStep S size)^[i] start + 1), ?_⟩
  rw [hj'.1.stash, length_slice]
  have hplace := hj'.1.place
  rw [hstuck] at hplace
  have hcome := le_received hc (max T (B + (walkStep S size)^[i] start + 1))
  omega

end Feed

/-- Reading on from the place the probe found, the demuxer comes to a valid stretch, parses it
    and keeps a bounded number of bytes, if and only if the walk meets the start of the stretch. -/
theorem recovers_iff (onPacket : δ → List UInt8 → ℕ → ℤ → δ) (onChunkEnd : δ → δ) {c : ℕ → ℕ}
    (hc : ∀ t, 0 < c t) {start : ℕ} (hprobe : probe (slice S 0 (c 0)) = .found size start) {v : ℕ}
    (hv : ∀ k, HasSync S size (v + k * size.bytes)) (media : δ) :
    Recovers S size v (feed onPacket onChunkEnd S c size start media) ↔
      ∃ i, (walkStep S size)^[i] start = v := by
  have hstart : start ≤ c 0 := by
    have := probe_bound hprobe
    rwa [length_slice] at this
  constructor
  · intro h
    obtain ⟨t, ht⟩ := h.parsed 0
    rw [Nat.zero_mul] at ht
    exact parsed_on_walk hstart ht
  · rintro ⟨i, hi⟩
    exact recovers_of_walk hc hstart hv hi

theorem start_le {c : ℕ → ℕ} {start : ℕ} (hprobe : probe (slice S 0 (c 0)) = .found size start) :
    start ≤ c 0 := by
  have := probe_bound hprobe
  rwa [length_slice] at this

/-- However a stream is cut into chunks, the packets that have been parsed at any time are the
    first of those that another cut comes to. -/
theorem chunking_independent (onPacket : δ → List UInt8 → ℕ → ℤ → δ) (onChunkEnd : δ → δ)
    {c c' : ℕ → ℕ} {start : ℕ} (hprobe : probe (slice S 0 (c 0)) = .found size start)
    (hprobe' : probe (slice S 0 (c' 0)) = .found size start) (hc' : ∀ t, 0 < c' t) (media : δ)
    (t : ℕ) :
    ∃ t', (feed onPacket onChunkEnd S c size start media t).sink.parsed <+:
      (feed onPacket onChunkEnd S c' size start media t').sink.parsed := by
  have h0 : Fed onPacket onChunkEnd S c size start media 0 0 := fed_zero (start_le hprobe)
  obtain ⟨j, -, hj⟩ := h0.later (Nat.zero_le t)
  obtain ⟨t', j', hle, hj'⟩ :
      ∃ t' j', j ≤ j' ∧ Fed onPacket onChunkEnd S c' size start media t' j' :=
    fed_reaches hc' (start_le hprobe') j
  obtain ⟨n, rfl⟩ := Nat.exists_eq_add_of_le hle
  rw [hj.1.parsed]
  refine ⟨t', ?_⟩
  rw [hj'.1.parsed, walkPackets_add]
  exact prefix_append _ _

/-- With packets of 188 or 204 bytes what is presented again stays bounded exactly if no sync byte
    is missing. -/
theorem stash_bounded_iff (onPacket : δ → List UInt8 → ℕ → ℤ → δ) (onChunkEnd : δ → δ) {c : ℕ → ℕ}
    (hc : ∀ t, 0 < c t) {start : ℕ} (hprobe : probe (slice S 0 (c 0)) = .found size start)
    (hats : size.ats = 0) (media : δ) :
    (∃ B, ∀ t, (feed onPacket onChunkEnd S c size start media t).stash.length ≤ B) ↔
      ∀ k, HasSync S size (start + k * size.bytes) := by
  constructor
  · rintro ⟨B, hB⟩
    by_contra hno
    have hbad : ∃ k, ¬ HasSync S size (start + k * size.bytes) := not_forall.1 hno
    obtain ⟨i, hi⟩ := (walk_reaches_iff S size hats start _).2
      ⟨Nat.find hbad, rfl, fun k hk => not_not.1 (Nat.find_min hbad hk)⟩
    obtain ⟨t, ht⟩ : ∃ t, B < (feed onPacket onChunkEnd S c size start media t).stash.length :=
      stash_unbounded hc (start_le hprobe) hats (hi ▸ Nat.find_spec hbad) B
    exact absurd (hB t) (not_le.2 ht)
  · exact fun hv => (recovers_of_walk hc (start_le hprobe) hv (i := 0) rfl).bounded

/-- A stream of sync bytes and zeros that lacks one sync byte. -/
def syncBut (size : TsPacketSize) (bad i : ℕ) : UInt8 :=
  if i % size.bytes = size.ats ∧ i ≠ bad then 0x47 else 0

theorem syncBut_valid (size : TsPacketSize) {bad n : ℕ} (h : bad < n * size.bytes) (k : ℕ) :
    HasSync (syncBut size bad) size (n * size.bytes + k * size.bytes) := by
  have hats : size.ats < size.bytes := by
    have := size.bytes_eq
    omega
  refine if_pos ⟨?_, by omega⟩
  rw [← Nat.add_mul, Nat.add_comm, Nat.add_mul_mod_self_right, Nat.mod_eq_of_lt hats]

theorem chunking_independent_plain :
    ∃ t', (feed (fun media _ _ _ => media) id (syncBut .plain 564) (fun _ => 700) .plain 0 ()
        3).sink.parsed <+:
      (feed (fun media _ _ _ => media) id (syncBut .plain 564) (fun _ => 900) .plain 0 ()
        t').sink.parsed :=
  chunking_independent _ id (by decide +kernel) (by decide +kernel) (fun _ => by decide) () 3

theorem stash_bounded_iff_plain :
    (∃ B, ∀ t, (feed (fun media _ _ _ => media) id (syncBut .plain 564) (fun _ => 700) .plain 0 ()
        t).stash.length ≤ B) ↔
      ∀ k, HasSync (syncBut .plain 564) .plain (0 + k * 188) :=
  stash_bounded_iff _ id (fun _ => by decide) (by decide +kernel) rfl ()

/-- With packets of 192 bytes the walk goes on in steps of four bytes. -/
theorem recovers_iff_m2ts : Recovers (syncBut .m2ts 580) .m2ts (4 * 192)
      (feed (fun media _ _ _ => media) id (syncBut .m2ts 580) (fun _ => 700) .m2ts 0 ()) :=
  (recovers_iff _ id (fun _ => by decide) (by decide +kernel)
    (syncBut_valid .m2ts (by decide)) ()).2 ⟨51, by decide +kernel⟩

/-- With packets of 188 bytes those behind the bad sync byte are never parsed. -/
theorem packets_never_parsed : probe (slice (syncBut .plain 564) 0 700) = .found .plain 0 ∧
      (∀ k, HasSync (syncBut .plain 564) .plain (4 * 188 + k * 188)) ∧
      ¬ Recovers (syncBut .plain 564) .plain (4 * 188)
        (feed (fun media _ _ _ => media) id (syncBut .plain 564) (fun _ => 700) .plain 0 ()) := by
  refine ⟨by decide +kernel, syncBut_valid .plain (by decide), fun h => ?_⟩
  obtain ⟨t, ht⟩ := h.parsed 0
  obtain ⟨n, hn, hall⟩ := (walk_reaches_iff _ .plain rfl 0 _).1 (parsed_on_walk (Nat.zero_le _) ht)
  have hn' : 4 * 188 + 0 * 188 = 0 + n * 188 := hn
  exact absurd (hall 3 (by omega)) (by decide)

end Apackage.Rtp2httpd.Player
