import AffinityGraph.Run
import Mathlib.Algebra.Order.Ring.Nat
import Mathlib.Tactic.Ring
/-!
# BpfRing — draining the kernel's ring

The ring as `BpfRingReader::drain` finds it, step by step, with the kernel's side between any two of its steps.  The memory is
the 32-bit words of the data pages, reached at a position modulo the capacity; a record is a header of two words and its
payload, and takes a multiple of eight bytes.  Positions count all bytes since the start.

`records` has every reservation in its order and is not in the ring itself: it is what the reader's results are compared with
(`BpfRing.drains`).  The invariant splits it at the reader's two positions (`BpfRing.Inv`).
-/
namespace AffinityGraph

abbrev Word := BitVec 32

namespace BpfRing

/-! ## The kernel's side -/

def busy : Word := BitVec.twoPow 32 31

def discard : Word := BitVec.twoPow 32 30

inductive Status where
  | busy
  | committed
  | discarded
  deriving DecidableEq

/-- A reservation of `len` bytes at `pos`, and the words of its payload. -/
structure Record where
  pos : Nat
  len : Nat
  status : Status
  payload : Nat → Word

/-- The header and the payload, rounded up to eight bytes. -/
def sizeOf (len : Nat) : Nat := 8 + (len + 7) / 8 * 8

def Record.size (r : Record) : Nat := sizeOf r.len

def Status.flags : Status → Word
  | .busy => BpfRing.busy
  | .committed => 0
  | .discarded => BpfRing.discard

/-- The first word of the header. -/
def headerOf (len : Nat) (status : Status) : Word := BitVec.ofNat 32 len ||| status.flags

/-- `sizeof(affinitygraph_bpf_event)`. -/
def eventBytes : Nat := 224

def eventWords : Nat := 56

/-- What the local variables of `drain` say it is doing. -/
inductive Reader where
  | idle
  | scan (position limit : Nat) (result : List (List Word))
  | copy (position limit : Nat) (result : List (List Word)) (len : Nat) (words : List Word)
  | stop (position : Nat) (result : List (List Word))

end BpfRing

open BpfRing

/-- The ring of `2 ^ (k + 3)` bytes, its reader, what `drain` has returned, and every reservation. -/
structure BpfRing (k : Nat) where
  mem : Nat → Word
  consumer : Nat := 0
  producer : Nat := 0
  reader : Reader := .idle
  drained : List (List Word) := []
  records : List Record := []

namespace BpfRing

variable {k : Nat}

def capacity (k : Nat) : Nat := 2 ^ (k + 3)

/-- The word of the data pages at a position. -/
def cell (k pos : Nat) : Nat := pos % capacity k / 4

/-- The header of a reservation is written. -/
def reservedMem (s : BpfRing k) (len : Nat) (pageOffset : Word) : Nat → Word :=
  Function.update (Function.update s.mem (cell k s.producer) (headerOf len .busy)) (cell k (s.producer + 4)) pageOffset

/-- Its payload is what was in the memory. -/
def reserved (s : BpfRing k) (len : Nat) (pageOffset : Word) : Record :=
  ⟨s.producer, len, .busy, fun j => s.reservedMem len pageOffset (cell k (s.producer + 8 + 4 * j))⟩

/-- The capacity less what is outstanding, and the 30 bits of a length, bound a reservation. -/
def reserve (s : BpfRing k) (len : Nat) (pageOffset : Word) : Option (BpfRing k) :=
  if len < 2 ^ 30 ∧ s.producer + sizeOf len ≤ s.consumer + capacity k then
    some { s with
      mem := s.reservedMem len pageOffset
      producer := s.producer + sizeOf len
      records := s.records ++ [s.reserved len pageOffset] }
  else none

/-- A word of a payload is written before its record is given back. -/
def write (s : BpfRing k) (i j : Nat) (value : Word) : Option (BpfRing k) :=
  match s.records[i]? with
  | some r =>
    if r.status = .busy ∧ 4 * j < r.len then
      some { s with
        mem := Function.update s.mem (cell k (r.pos + 8 + 4 * j)) value
        records := s.records.set i { r with payload := Function.update r.payload j value } }
    else none
  | none => none

/-- A record is committed or discarded: the busy bit goes. -/
def release (s : BpfRing k) (i : Nat) (status : Status) : Option (BpfRing k) :=
  match s.records[i]? with
  | some r =>
    if r.status = .busy ∧ status ≠ .busy then
      some { s with
        mem := Function.update s.mem (cell k r.pos) (headerOf r.len status)
        records := s.records.set i { r with status := status } }
    else none
  | none => none

/-! ## `drain` -/

/-- `data + (position & (capacity_ - 1)) + offset`, in pages that are mapped twice. -/
def load (s : BpfRing k) (position offset : Nat) : Word :=
  s.mem (((position &&& (capacity k - 1)) + offset) % capacity k / 4)

def advance (position payloadLength : Nat) : Nat := position + (payloadLength + 8 + 7) / 8 * 8

/-- The two positions are loaded. -/
def begin (s : BpfRing k) : Option (BpfRing k) :=
  match s.reader with
  | .idle => some { s with reader := .scan s.consumer s.producer [] }
  | _ => none

/-- The header at the position is loaded: the loop ends at a busy one, and passes over what is no event. -/
def loadHeader (s : BpfRing k) : Option (BpfRing k) :=
  match s.reader with
  | .scan position limit result =>
    if position < limit then
      let length := s.load position 0
      if length &&& busy ≠ 0 then some { s with reader := .stop position result }
      else
        let payloadLength := (length &&& ~~~(busy ||| discard)).toNat
        if length &&& discard = 0 ∧ eventBytes ≤ payloadLength then
          some { s with reader := .copy position limit result payloadLength [] }
        else some { s with reader := .scan (advance position payloadLength) limit result }
    else none
  | _ => none

/-- One word of the `memcpy`; after the last the event is pushed and the position advanced. -/
def copyWord (s : BpfRing k) : Option (BpfRing k) :=
  match s.reader with
  | .copy position limit result len words =>
    if words.length < eventWords then
      some { s with reader := .copy position limit result len (words ++ [s.load position (8 + 4 * words.length)]) }
    else some { s with reader := .scan (advance position len) limit (result ++ [words]) }
  | _ => none

/-- The consumer position is stored, and the result returned. -/
def finish (s : BpfRing k) : Option (BpfRing k) :=
  match s.reader with
  | .scan position limit result =>
    if position < limit then none
    else some { s with consumer := position, drained := s.drained ++ result, reader := .idle }
  | .stop position result =>
    some { s with consumer := position, drained := s.drained ++ result, reader := .idle }
  | _ => none

inductive Event where
  | reserve (len : Nat) (pageOffset : Word)
  | write (i j : Nat) (value : Word)
  | commit (i : Nat)
  | discard (i : Nat)
  | begin
  | loadHeader
  | copyWord
  | finish

/-- One step of the kernel or of the reader. -/
def step (s : BpfRing k) : Event → Option (BpfRing k)
  | .reserve len pageOffset => s.reserve len pageOffset
  | .write i j value => s.write i j value
  | .commit i => s.release i .committed
  | .discard i => s.release i .discarded
  | .begin => s.begin
  | .loadHeader => s.loadHeader
  | .copyWord => s.copyWord
  | .finish => s.finish

/-! ## The words of a header -/

theorem getLsbD_ofNat_of_lt {len i : Nat} (h : len < 2 ^ 30) (hi : 30 ≤ i) : (BitVec.ofNat 32 len).getLsbD i = false := by
  rw [BitVec.getLsbD_ofNat, Nat.testBit_lt_two_pow (lt_of_lt_of_le h (Nat.pow_le_pow_right (by decide) hi)), Bool.and_false]

theorem headerOf_busy {len : Nat} (h : len < 2 ^ 30) (status : Status) :
    headerOf len status &&& busy ≠ 0 ↔ status = .busy := by
  have hbit : (headerOf len status).getLsbD 31 = decide (status = .busy) := by
    unfold headerOf
    rw [BitVec.getLsbD_or, getLsbD_ofNat_of_lt h (by decide), Bool.false_or]
    cases status <;> rfl
  unfold busy
  rw [BitVec.and_twoPow, hbit]
  by_cases hs : status = .busy
  · simp only [hs, decide_true, if_true, iff_true]
    decide
  · simp [hs]

theorem headerOf_discard {len : Nat} (h : len < 2 ^ 30) {status : Status} :
    headerOf len status &&& discard = 0 ↔ status ≠ .discarded := by
  have hbit : (headerOf len status).getLsbD 30 = decide (status = .discarded) := by
    unfold headerOf
    rw [BitVec.getLsbD_or, getLsbD_ofNat_of_lt h (by decide), Bool.false_or]
    cases status <;> rfl
  unfold discard
  rw [BitVec.and_twoPow, hbit]
  by_cases hs : status = .discarded
  · simp only [hs, decide_true, if_true, ne_eq, not_true_eq_false, iff_false]
    decide
  · simp [hs]

theorem headerOf_len {len : Nat} (h : len < 2 ^ 30) (status : Status) :
    (headerOf len status &&& ~~~(busy ||| discard)).toNat = len := by
  have hflags : ∀ i < 30, status.flags.getLsbD i = false := by
    intro i hi
    cases status <;> simp [Status.flags, busy, discard, BitVec.getLsbD_twoPow] <;> omega
  have hmask : ∀ i < 32, (~~~(busy ||| discard)).getLsbD i = decide (i < 30) := by decide
  have hword : headerOf len status &&& ~~~(busy ||| discard) = BitVec.ofNat 32 len := by
    refine BitVec.eq_of_getLsbD_eq (fun i hi => ?_)
    unfold headerOf
    rw [BitVec.getLsbD_and, BitVec.getLsbD_or, hmask i hi]
    by_cases hlow : i < 30
    · rw [hflags i hlow, Bool.or_false, decide_eq_true hlow, Bool.and_true]
    · rw [getLsbD_ofNat_of_lt h (by omega), decide_eq_false hlow, Bool.and_false]
  rw [hword, BitVec.toNat_ofNat]
  exact Nat.mod_eq_of_lt (lt_trans h (by decide))

/-! ## Positions and cells -/

theorem eight_dvd_capacity : 8 ∣ capacity k := by
  unfold capacity
  rw [pow_add]
  exact Dvd.intro_left _ rfl

theorem eight_dvd_size (r : Record) : 8 ∣ r.size := by
  unfold Record.size sizeOf
  omega

theorem size_pos (r : Record) : 0 < r.size := by
  unfold Record.size sizeOf
  omega

/-- The reader's rounding is the kernel's. -/
theorem advance_eq (position len : Nat) : advance position len = position + sizeOf len := by
  unfold advance sizeOf
  omega

/-- The reader finds the word at a position and an offset where the kernel put it. -/
theorem load_eq (s : BpfRing k) (position offset : Nat) : s.load position offset = s.mem (cell k (position + offset)) := by
  unfold load cell capacity
  rw [Nat.and_two_pow_sub_one_eq_mod, Nat.mod_add_mod]

theorem cell_ne_of_lt {p q : Nat} (hp : 4 ∣ p) (hq : 4 ∣ q) (hlt : p < q) (hnear : q < p + capacity k) :
    cell k p ≠ cell k q := by
  intro h
  have hfour : 4 ∣ capacity k := dvd_trans (by decide) eight_dvd_capacity
  have hp' : 4 ∣ p % capacity k := (Nat.dvd_mod_iff hfour).2 hp
  have hq' : 4 ∣ q % capacity k := (Nat.dvd_mod_iff hfour).2 hq
  have hmod : p % capacity k = q % capacity k := by
    unfold cell at h
    omega
  have hdvd : capacity k ∣ q - p := Nat.dvd_of_mod_eq_zero (Nat.sub_mod_eq_zero_of_mod_eq hmod.symm)
  have hzero := Nat.eq_zero_of_dvd_of_lt hdvd (by omega)
  omega

/-- **Words less than a capacity apart are in different cells.** -/
theorem cell_ne {p q : Nat} (hp : 4 ∣ p) (hq : 4 ∣ q) (hne : p ≠ q) (hpq : p < q + capacity k) (hqp : q < p + capacity k) :
    cell k p ≠ cell k q := by
  rcases lt_or_gt_of_ne hne with hlt | hlt
  · exact cell_ne_of_lt hp hq hlt hqp
  · exact (cell_ne_of_lt hq hp hlt hpq).symm

/-! ## Records one after the other -/

/-- The records fill the positions from one to another. -/
def Tiled : Nat → List Record → Nat → Prop
  | p, [], e => p = e
  | p, r :: rs, e => r.pos = p ∧ Tiled (p + r.size) rs e

theorem tiled_append : ∀ {p e : Nat} {xs ys : List Record}, Tiled p (xs ++ ys) e ↔ ∃ m, Tiled p xs m ∧ Tiled m ys e
  | p, e, [], ys => by simp [Tiled]
  | p, e, x :: xs, ys => by
    simp only [List.cons_append, Tiled, tiled_append, and_assoc, exists_and_left]

theorem Tiled.le : ∀ {rs : List Record} {p e : Nat}, Tiled p rs e → p ≤ e
  | [], p, e, h => le_of_eq h
  | r :: rs, p, e, h => by
    have hrest := h.2.le
    omega

/-- Every record is inside, and aligned when the first is. -/
theorem Tiled.mem : ∀ {rs : List Record} {p e : Nat} {r : Record}, Tiled p rs e → r ∈ rs → p ≤ r.pos ∧ r.pos + r.size ≤ e
  | x :: rs, p, e, r, h, hr => by
    obtain ⟨hpos, hrest⟩ := h
    have hle := hrest.le
    rcases List.mem_cons.1 hr with rfl | hr
    · exact ⟨le_of_eq hpos.symm, by omega⟩
    · have hin := hrest.mem hr
      exact ⟨by omega, hin.2⟩

theorem Tiled.aligned : ∀ {rs : List Record} {p e : Nat}, Tiled p rs e → 8 ∣ p → 8 ∣ e ∧ ∀ r ∈ rs, 8 ∣ r.pos
  | [], p, e, h, hp => ⟨h ▸ hp, fun r hr => absurd hr List.not_mem_nil⟩
  | x :: rs, p, e, h, hp => by
    obtain ⟨hpos, hrest⟩ := h
    obtain ⟨he, hall⟩ := hrest.aligned (Nat.dvd_add hp (eight_dvd_size x))
    refine ⟨he, fun r hr => ?_⟩
    rcases List.mem_cons.1 hr with rfl | hr
    · exact hpos ▸ hp
    · exact hall r hr

/-- Another record of the same place and length fills it as well. -/
theorem Tiled.replace {p e : Nat} {xs ys : List Record} {r r' : Record} (hpos : r'.pos = r.pos) (hlen : r'.len = r.len)
    (h : Tiled p (xs ++ r :: ys) e) : Tiled p (xs ++ r' :: ys) e := by
  obtain ⟨m, hxs, hr, hys⟩ := tiled_append.1 h
  have hsize : r'.size = r.size := congrArg sizeOf hlen
  exact tiled_append.2 ⟨m, hxs, hpos.trans hr, by rw [hsize]; exact hys⟩

/-- The others are before it or after it. -/
theorem Tiled.apart {p e : Nat} {xs ys : List Record} {r x : Record} (h : Tiled p (xs ++ r :: ys) e) (hx : x ∈ xs ++ ys) :
    x.pos + x.size ≤ r.pos ∨ r.pos + r.size ≤ x.pos := by
  obtain ⟨m, hxs, hr, hys⟩ := tiled_append.1 h
  rcases List.mem_append.1 hx with hx | hx
  · have hin := hxs.mem hx
    exact Or.inl (by omega)
  · have hin := hys.mem hx
    exact Or.inr (by omega)

theorem Tiled.eq_nil {rs : List Record} {p : Nat} (h : Tiled p rs p) : rs = [] := by
  cases rs with
  | nil => rfl
  | cons r rs =>
    have hin := h.mem List.mem_cons_self
    have hsize := size_pos r
    omega

/-! ## The invariant -/

/-- The words a record has been given are in the memory. -/
def Holds (k : Nat) (mem : Nat → Word) (r : Record) : Prop :=
  mem (cell k r.pos) = headerOf r.len r.status ∧ ∀ j, 4 * j < r.len → mem (cell k (r.pos + 8 + 4 * j)) = r.payload j

/-- A word beside a record, within a capacity of it, is none of its own. -/
theorem Holds.update {mem : Nat → Word} {r : Record} (h : Holds k mem r) {b q : Nat} (hr : 8 ∣ r.pos) (hq : 4 ∣ q)
    (hrange : b ≤ r.pos ∧ r.pos + r.size ≤ b + capacity k) (hqrange : b ≤ q ∧ q < b + capacity k)
    (hout : q < r.pos ∨ r.pos + r.size ≤ q) (v : Word) : Holds k (Function.update mem (cell k q) v) r := by
  have hne : ∀ o, 4 ∣ o → r.pos ≤ o → o < r.pos + r.size → cell k o ≠ cell k q := by
    intro o ho hlow hhigh
    exact cell_ne ho hq (by omega) (by omega) (by omega)
  have hsize : r.size = 8 + (r.len + 7) / 8 * 8 := rfl
  refine ⟨?_, fun j hj => ?_⟩
  · rw [Function.update_of_ne (hne r.pos (by omega) (le_refl _) (by omega))]
    exact h.1
  · rw [Function.update_of_ne (hne _ (by omega) (by omega) (by omega))]
    exact h.2 j hj

/-- An event that is to be returned: committed, and not too short. -/
def Record.Delivers (r : Record) : Prop := r.status = .committed ∧ eventBytes ≤ r.len

instance (r : Record) : Decidable r.Delivers := inferInstanceAs (Decidable (_ ∧ _))

def Record.event (r : Record) : List Word := (List.range eventWords).map r.payload

def eventsOf (rs : List Record) : List (List Word) := (rs.filter (fun r => decide r.Delivers)).map Record.event

theorem eventsOf_append (xs ys : List Record) : eventsOf (xs ++ ys) = eventsOf xs ++ eventsOf ys := by
  unfold eventsOf
  rw [List.filter_append, List.map_append]

def Reader.result : Reader → List (List Word)
  | .idle => []
  | .scan _ _ result | .copy _ _ result _ _ | .stop _ result => result

def position (s : BpfRing k) : Nat :=
  match s.reader with
  | .idle => s.consumer
  | .scan position _ _ | .copy position _ _ _ _ | .stop position _ => position

/-- No record lies across a position. -/
def Whole (rs : List Record) (limit : Nat) : Prop := ∀ r ∈ rs, r.pos < limit → r.pos + r.size ≤ limit

/-- What the reader has seen of the records before it: while it copies, the first is committed, and the words are its own. -/
def Reader.Ok (rest : List Record) (producer : Nat) : Reader → Prop
  | .scan _ limit _ => limit ≤ producer ∧ Whole rest limit
  | .copy position limit _ len words => (limit ≤ producer ∧ Whole rest limit) ∧ position < limit ∧
      ∃ r tail, rest = r :: tail ∧ r.Delivers ∧ len = r.len ∧ words.length ≤ eventWords ∧
        words = (List.range words.length).map r.payload
  | _ => True

/-- The records are those below the consumer position, those the reader has passed, and those before it. -/
structure Inv (s : BpfRing k) (done read rest : List Record) : Prop where
  records : s.records = (done ++ read) ++ rest
  doneTiled : Tiled 0 done s.consumer
  readTiled : Tiled s.consumer read s.position
  restTiled : Tiled s.position rest s.producer
  room : s.producer ≤ s.consumer + capacity k
  released : ∀ r ∈ done ++ read, r.status ≠ .busy
  short : ∀ r ∈ rest, r.len < 2 ^ 30
  held : ∀ r ∈ rest, Holds k s.mem r
  drained : s.drained = eventsOf done
  result : s.reader.result = eventsOf read
  reader : s.reader.Ok rest s.producer

variable {s s' : BpfRing k} {done read rest : List Record}

theorem Inv.aligned (h : Inv s done read rest) : 8 ∣ s.position ∧ 8 ∣ s.producer ∧ ∀ r ∈ rest, 8 ∣ r.pos := by
  have hconsumer := (h.doneTiled.aligned (dvd_zero 8)).1
  have hposition := (h.readTiled.aligned hconsumer).1
  obtain ⟨hproducer, hrest⟩ := h.restTiled.aligned hposition
  exact ⟨hposition, hproducer, hrest⟩

/-! ### The steps of the kernel -/

theorem Inv.reserve (h : Inv s done read rest) {len : Nat} {pageOffset : Word} (hs : s.reserve len pageOffset = some s') :
    Inv s' done read (rest ++ [s.reserved len pageOffset]) := by
  unfold BpfRing.reserve at hs
  split at hs
  · rename_i hfits
    cases hs
    obtain ⟨hposition, hproducer, haligned⟩ := h.aligned
    have hconsumed := h.readTiled.le
    have hread := h.restTiled.le
    have hroom := h.room
    have hsize : sizeOf len = 8 + (len + 7) / 8 * 8 := rfl
    have hnew : ∀ limit ≤ s.producer, Whole rest limit → Whole (rest ++ [s.reserved len pageOffset]) limit := by
      intro limit hlimit hwhole r hr hlt
      rcases List.mem_append.1 hr with hr | hr
      · exact hwhole r hr hlt
      · rw [List.mem_singleton.1 hr] at hlt
        exact absurd hlt (not_lt.2 hlimit)
    refine ⟨?_, h.doneTiled, h.readTiled, ?_, hfits.2, h.released, ?_, ?_, h.drained, h.result, ?_⟩
    · rw [← List.append_assoc, ← h.records]
    · exact tiled_append.2 ⟨s.producer, h.restTiled, rfl, rfl⟩
    · intro r hr
      rcases List.mem_append.1 hr with hr | hr
      · exact h.short r hr
      · rw [List.mem_singleton.1 hr]
        exact hfits.1
    · intro r hr
      rcases List.mem_append.1 hr with hr | hr
      · -- the header is written beyond the records there are
        have hin := h.restTiled.mem hr
        have hfirst := (h.held r hr).update (b := s.position) (q := s.producer) (haligned r hr) (by omega) (by omega)
          (by omega) (Or.inr hin.2) (headerOf len .busy)
        exact hfirst.update (b := s.position) (q := s.producer + 4) (haligned r hr) (by omega) (by omega) (by omega)
          (Or.inr (by omega)) pageOffset
      · rw [List.mem_singleton.1 hr]
        refine ⟨?_, fun j _ => rfl⟩
        show s.reservedMem len pageOffset (cell k s.producer) = headerOf len .busy
        unfold reservedMem
        rw [Function.update_of_ne (cell_ne (by omega) (by omega) (by omega) (by omega) (by omega)), Function.update_self]
    · have hok := h.reader
      unfold Reader.Ok at hok ⊢
      dsimp only
      split at hok
      · exact ⟨by omega, hnew _ hok.1 hok.2⟩
      · obtain ⟨⟨hlimit, hwhole⟩, hlt, r, tail, rfl, hrest⟩ := hok
        exact ⟨⟨by omega, hnew _ hlimit hwhole⟩, hlt, r, _, rfl, hrest⟩
      · trivial
  · cases hs

/-- A busy record is before the reader. -/
theorem Inv.split (h : Inv s done read rest) {i : Nat} {r : Record} (hi : s.records[i]? = some r) (hbusy : r.status = .busy)
    (r' : Record) : ∃ xs ys, rest = xs ++ r :: ys ∧ s.records.set i r' = (done ++ read) ++ (xs ++ r' :: ys) := by
  obtain ⟨hlt, hget⟩ := List.getElem?_eq_some_iff.1 hi
  have hbeyond : (done ++ read).length ≤ i := by
    by_contra hbefore
    have hmem : r ∈ done ++ read := by
      have hat : (done ++ read)[i]? = some r := by
        rw [h.records, List.getElem?_append_left (not_le.1 hbefore)] at hi
        exact hi
      exact List.mem_of_getElem? hat
    exact h.released r hmem hbusy
  have hrest : rest[i - (done ++ read).length]? = some r := by
    rw [h.records, List.getElem?_append_right hbeyond] at hi
    exact hi
  obtain ⟨hlt', hget'⟩ := List.getElem?_eq_some_iff.1 hrest
  obtain ⟨xs, ys, hxs, -, hset⟩ : ∃ xs ys, rest = xs ++ rest[i - (done ++ read).length] :: ys ∧
      xs.length = i - (done ++ read).length ∧ rest.set (i - (done ++ read).length) r' = xs ++ r' :: ys :=
    List.exists_of_set hlt'
  refine ⟨xs, ys, ?_, ?_⟩
  · rw [hget'] at hxs
    exact hxs
  · rw [h.records, List.set_append_right i r' hbeyond, hset]

/-- **A busy record is changed**: one of its words, and what is noted of it, but neither its place nor its length. -/
theorem Inv.change (h : Inv s done read rest) {i : Nat} {r r' : Record} {q : Nat} {v : Word}
    (hi : s.records[i]? = some r) (hbusy : r.status = .busy) (hpos : r'.pos = r.pos) (hlen : r'.len = r.len) (hq : 4 ∣ q)
    (hin : r.pos ≤ q ∧ q < r.pos + r.size) (hheld : Holds k (Function.update s.mem (cell k q) v) r') :
    ∃ rest', Inv ({ s with mem := Function.update s.mem (cell k q) v, records := s.records.set i r' } : BpfRing k)
      done read rest' := by
  obtain ⟨xs, ys, rfl, hset⟩ := h.split hi hbusy r'
  obtain ⟨-, -, haligned⟩ := h.aligned
  have hroom := h.room
  have hconsumed := h.readTiled.le
  have hrange : ∀ x ∈ xs ++ r :: ys, s.position ≤ x.pos ∧ x.pos + x.size ≤ s.position + capacity k := by
    intro x hx
    have hx' := h.restTiled.mem hx
    omega
  have hr := hrange r (by simp)
  have hothers : ∀ x ∈ xs ++ r' :: ys, x = r' ∨ x ∈ xs ++ ys := by
    intro x hx
    rw [List.mem_append, List.mem_cons] at hx
    rw [List.mem_append]
    tauto
  have hold : ∀ x ∈ xs ++ ys, x ∈ xs ++ r :: ys := by
    intro x hx
    rw [List.mem_append] at hx
    rw [List.mem_append, List.mem_cons]
    tauto
  have hwhole : ∀ limit, Whole (xs ++ r :: ys) limit → Whole (xs ++ r' :: ys) limit := by
    intro limit hlimit x hx hlt
    rcases hothers x hx with rfl | hx
    · have hsize : x.size = r.size := congrArg sizeOf hlen
      rw [hpos] at hlt
      rw [hpos, hsize]
      exact hlimit r (by simp) hlt
    · exact hlimit x (hold x hx) hlt
  refine ⟨xs ++ r' :: ys, hset, h.doneTiled, h.readTiled, h.restTiled.replace hpos hlen, h.room, h.released, ?_, ?_,
    h.drained, h.result, ?_⟩
  · intro x hx
    rcases hothers x hx with rfl | hx
    · rw [hlen]
      exact h.short r (by simp)
    · exact h.short x (hold x hx)
  · intro x hx
    rcases hothers x hx with rfl | hx
    · exact hheld
    · have hapart := h.restTiled.apart hx
      have hx' := hrange x (hold x hx)
      exact (h.held x (hold x hx)).update (haligned x (hold x hx)) hq hx' (by omega) (by omega) v
  · have hok := h.reader
    unfold Reader.Ok at hok ⊢
    dsimp only
    split at hok
    · exact ⟨hok.1, hwhole _ hok.2⟩
    · obtain ⟨⟨hlimit, hw⟩, hlt, x, tail, hx, hdelivers, hrest⟩ := hok
      -- the record that is being copied is committed, so it is another one
      cases xs with
      | nil =>
        rw [List.nil_append, List.cons.injEq] at hx
        rw [hx.1] at hbusy
        rw [hdelivers.1] at hbusy
        cases hbusy
      | cons y xs =>
        rw [List.cons_append, List.cons.injEq] at hx
        exact ⟨⟨hlimit, hwhole _ hw⟩, hlt, x, _, by rw [List.cons_append, hx.1], hdelivers, hrest⟩
    · trivial

/-- A busy record is in the memory, and no longer than it. -/
theorem Inv.of_busy (h : Inv s done read rest) {i : Nat} {r : Record} (hi : s.records[i]? = some r)
    (hbusy : r.status = .busy) : Holds k s.mem r ∧ 8 ∣ r.pos ∧ r.size ≤ capacity k := by
  obtain ⟨xs, ys, hrest, -⟩ := h.split hi hbusy r
  have hr : r ∈ rest := by
    rw [hrest]
    simp
  have hin := h.restTiled.mem hr
  have hconsumed := h.readTiled.le
  have hroom := h.room
  exact ⟨h.held r hr, h.aligned.2.2 r hr, by omega⟩

theorem Inv.write (h : Inv s done read rest) {i j : Nat} {value : Word} (hs : s.write i j value = some s') :
    ∃ rest', Inv s' done read rest' := by
  unfold BpfRing.write at hs
  split at hs
  · rename_i r hi
    split at hs
    · rename_i hwrite
      cases hs
      obtain ⟨hheld, haligned, hfits⟩ := h.of_busy hi hwrite.1
      have hsize : r.size = 8 + (r.len + 7) / 8 * 8 := rfl
      refine h.change hi hwrite.1 rfl rfl (by omega) (by omega) ⟨?_, fun j' hj' => ?_⟩
      · dsimp only
        rw [Function.update_of_ne (cell_ne (by omega) (by omega) (by omega) (by omega) (by omega))]
        exact hheld.1
      · dsimp only at hj' ⊢
        by_cases hj : j' = j
        · subst hj
          rw [Function.update_self, Function.update_self]
        · rw [Function.update_of_ne (cell_ne (by omega) (by omega) (by omega) (by omega) (by omega)),
            Function.update_of_ne hj]
          exact hheld.2 j' hj'
    · cases hs
  · cases hs

theorem Inv.release (h : Inv s done read rest) {i : Nat} {status : Status} (hs : s.release i status = some s') :
    ∃ rest', Inv s' done read rest' := by
  unfold BpfRing.release at hs
  split at hs
  · rename_i r hi
    split at hs
    · rename_i hbusy
      cases hs
      obtain ⟨hheld, haligned, hfits⟩ := h.of_busy hi hbusy.1
      have hsize : r.size = 8 + (r.len + 7) / 8 * 8 := rfl
      refine h.change hi hbusy.1 rfl rfl (by omega) (by omega) ⟨Function.update_self _ _ _, fun j hj => ?_⟩
      dsimp only at hj ⊢
      rw [Function.update_of_ne (cell_ne (by omega) (by omega) (by omega) (by omega) (by omega))]
      exact hheld.2 j hj
    · cases hs
  · cases hs

/-! ### The steps of the reader -/

theorem Inv.begin (h : Inv s done read rest) (hs : s.begin = some s') : Inv s' done read rest := by
  unfold BpfRing.begin at hs
  split at hs
  · rename_i hidle
    cases hs
    have hposition : s.position = s.consumer := by
      unfold BpfRing.position
      rw [hidle]
    have htiled := h.restTiled
    rw [hposition] at htiled
    have hread := h.readTiled
    rw [hposition] at hread
    have hnil := hread.eq_nil
    subst hnil
    exact ⟨h.records, h.doneTiled, hread, htiled, h.room, h.released, h.short, h.held, h.drained, rfl, le_refl _,
      fun r hr _ => (htiled.mem hr).2⟩
  · cases hs

/-- The reader goes past the first record before it, which is not busy. -/
theorem Inv.pass {r : Record} {tail : List Record} (h : Inv s done read (r :: tail)) (hstatus : r.status ≠ .busy)
    {limit : Nat} (hlimit : limit ≤ s.producer ∧ Whole (r :: tail) limit) {result : List (List Word)}
    (hresult : result = eventsOf (read ++ [r])) :
    Inv ({ s with reader := .scan (advance s.position r.len) limit result } : BpfRing k) done (read ++ [r]) tail := by
  obtain ⟨hpos, htail⟩ := h.restTiled
  have hnext : advance s.position r.len = s.position + r.size := advance_eq _ _
  refine ⟨?_, h.doneTiled, ?_, ?_, h.room, ?_, fun x hx => h.short x (List.mem_cons_of_mem _ hx),
    fun x hx => h.held x (List.mem_cons_of_mem _ hx), h.drained, hresult, hlimit.1,
    fun x hx => hlimit.2 x (List.mem_cons_of_mem _ hx)⟩
  · show s.records = _
    rw [h.records]
    simp
  · exact tiled_append.2 ⟨s.position, h.readTiled, hpos, hnext.symm⟩
  · show Tiled (advance s.position r.len) tail s.producer
    rw [hnext]
    exact htail
  · intro x hx
    rw [← List.append_assoc, List.mem_append, List.mem_singleton] at hx
    rcases hx with hx | rfl
    · exact h.released x hx
    · exact hstatus

/-- Before its limit the reader has a record, whose header is in the memory. -/
theorem Inv.next (h : Inv s done read rest) {limit : Nat} (hlimit : limit ≤ s.producer) (hlt : s.position < limit) :
    ∃ r tail, rest = r :: tail ∧ r.len < 2 ^ 30 ∧ s.load s.position 0 = headerOf r.len r.status := by
  cases rest with
  | nil =>
    have hend : s.position = s.producer := h.restTiled
    omega
  | cons r tail =>
    have hheader := (h.held r List.mem_cons_self).1
    rw [h.restTiled.1] at hheader
    exact ⟨r, tail, rfl, h.short r List.mem_cons_self, (load_eq s _ 0).trans hheader⟩

theorem eventsOf_singleton (r : Record) : eventsOf [r] = if r.Delivers then [r.event] else [] := by
  unfold eventsOf
  by_cases hr : r.Delivers <;> simp [hr]

theorem Inv.loadHeader (h : Inv s done read rest) (hs : s.loadHeader = some s') :
    ∃ read' rest', Inv s' done read' rest' := by
  unfold BpfRing.loadHeader at hs
  split at hs
  · rename_i position limit result hscan
    have hposition : s.position = position := by
      unfold BpfRing.position
      rw [hscan]
    have hresult : result = eventsOf read := by
      have hr := h.result
      rw [hscan] at hr
      exact hr
    have hok : limit ≤ s.producer ∧ Whole rest limit := by
      have hr := h.reader
      rw [hscan] at hr
      exact hr
    subst hposition
    split at hs
    · rename_i hlt
      obtain ⟨r, tail, rfl, hlen, hload⟩ := h.next hok.1 hlt
      dsimp only at hs
      rw [hload, headerOf_len hlen] at hs
      split at hs
      · cases hs
        exact ⟨read, r :: tail, h.records, h.doneTiled, h.readTiled, h.restTiled, h.room, h.released, h.short, h.held,
          h.drained, hresult, trivial⟩
      · rename_i hidle
        have hstatus : r.status ≠ .busy := fun hbusy => hidle ((headerOf_busy hlen r.status).2 hbusy)
        have hdelivers : (headerOf r.len r.status &&& BpfRing.discard = 0 ∧ eventBytes ≤ r.len) ↔ r.Delivers := by
          unfold Record.Delivers
          rw [headerOf_discard hlen]
          refine and_congr_left (fun _ => ?_)
          cases hst : r.status <;> simp_all
        split at hs
        · rename_i hevent
          cases hs
          exact ⟨read, r :: tail, h.records, h.doneTiled, h.readTiled, h.restTiled, h.room, h.released, h.short, h.held,
            h.drained, hresult, hok, hlt, r, tail, rfl, hdelivers.1 hevent, rfl, Nat.zero_le _, rfl⟩
        · rename_i hevent
          cases hs
          refine ⟨read ++ [r], tail, h.pass hstatus hok ?_⟩
          rw [eventsOf_append, eventsOf_singleton, if_neg (fun hd => hevent (hdelivers.2 hd)), List.append_nil, hresult]
    · cases hs
  · cases hs

theorem Inv.copyWord (h : Inv s done read rest) (hs : s.copyWord = some s') : ∃ read' rest', Inv s' done read' rest' := by
  unfold BpfRing.copyWord at hs
  split at hs
  · rename_i position limit result len words hcopy
    have hposition : s.position = position := by
      unfold BpfRing.position
      rw [hcopy]
    have hresult : result = eventsOf read := by
      have hr := h.result
      rw [hcopy] at hr
      exact hr
    have hok := h.reader
    rw [hcopy] at hok
    obtain ⟨hlimit, hlt, r, tail, rfl, hdelivers, rfl, hle, hwords⟩ := hok
    subst hposition
    split at hs
    · rename_i hmore
      cases hs
      refine ⟨read, r :: tail, h.records, h.doneTiled, h.readTiled, h.restTiled, h.room, h.released, h.short, h.held,
        h.drained, hresult, hlimit, hlt, r, tail, rfl, hdelivers, rfl, ?_, ?_⟩
      · rw [List.length_append]
        exact hmore
      · -- the word is inside the payload, for the event is no longer than it
        have hinside : 4 * words.length < r.len := by
          have hbytes := hdelivers.2
          unfold eventBytes at hbytes
          unfold eventWords at hmore
          omega
        have hword := (h.held r List.mem_cons_self).2 words.length hinside
        rw [h.restTiled.1] at hword
        rw [load_eq, ← Nat.add_assoc, hword, List.length_append, List.length_singleton, List.range_succ, List.map_append,
          ← hwords]
        rfl
    · rename_i hfull
      cases hs
      have hevent : words = r.event := by
        rw [hwords, show words.length = eventWords by omega]
        rfl
      refine ⟨read ++ [r], tail, h.pass (by rw [hdelivers.1]; exact fun hb => nomatch hb) hlimit ?_⟩
      rw [eventsOf_append, eventsOf_singleton, if_pos hdelivers, hresult, hevent]
  · cases hs

/-- The reader returns: what it has passed is below the consumer position. -/
theorem Inv.return (h : Inv s done read rest) : Inv ({ s with
    consumer := s.position, drained := s.drained ++ s.reader.result, reader := .idle } : BpfRing k) (done ++ read) [] rest := by
  have hconsumed := h.readTiled.le
  refine ⟨?_, tiled_append.2 ⟨_, h.doneTiled, h.readTiled⟩, rfl, h.restTiled, ?_, ?_, h.short, h.held, ?_, rfl, trivial⟩
  · show s.records = _
    rw [h.records, List.append_nil]
  · show s.producer ≤ s.position + capacity k
    have hroom := h.room
    omega
  · rw [List.append_nil]
    exact h.released
  · show s.drained ++ s.reader.result = _
    rw [h.drained, h.result, eventsOf_append]

theorem Inv.finish (h : Inv s done read rest) (hs : s.finish = some s') :
    ∃ done', Inv s' done' [] rest := by
  have hreturn := h.return
  unfold BpfRing.finish at hs
  unfold BpfRing.position at hreturn
  split at hs
  · rename_i position limit result hscan
    rw [hscan] at hreturn
    split at hs
    · cases hs
    · cases hs
      exact ⟨_, hreturn⟩
  · rename_i position result hstop
    rw [hstop] at hreturn
    cases hs
    exact ⟨_, hreturn⟩
  · cases hs

/-- **Every step keeps the invariant.** -/
theorem Inv.step (h : Inv s done read rest) {e : Event} (hs : s.step e = some s') :
    ∃ done' read' rest', Inv s' done' read' rest' := by
  cases e with
  | reserve len pageOffset => exact ⟨_, _, _, h.reserve hs⟩
  | write i j value => exact ⟨_, _, h.write hs⟩
  | commit i => exact ⟨_, _, h.release hs⟩
  | discard i => exact ⟨_, _, h.release hs⟩
  | begin => exact ⟨_, _, _, h.begin hs⟩
  | loadHeader => exact ⟨_, h.loadHeader hs⟩
  | copyWord => exact ⟨_, h.copyWord hs⟩
  | finish =>
    obtain ⟨done', hinv⟩ := h.finish hs
    exact ⟨_, _, _, hinv⟩

/-! ## Every interleaving -/

/-- A ring nothing has been reserved in. -/
def new (k : Nat) (mem : Nat → Word) : BpfRing k where
  mem := mem

theorem inv_new (mem : Nat → Word) : Inv (new k mem) [] [] [] :=
  ⟨rfl, rfl, rfl, rfl, Nat.zero_le _, fun _ hr => absurd hr List.not_mem_nil, fun _ hr => absurd hr List.not_mem_nil,
    fun _ hr => absurd hr List.not_mem_nil, rfl, rfl, trivial⟩

/-- The place a record is being read at. -/
def reading (s : BpfRing k) : Option Nat :=
  match s.reader with
  | .copy position _ _ _ _ => some position
  | _ => none

theorem Tiled.eq_sum : ∀ {rs : List Record} {p e : Nat}, Tiled p rs e → e = p + (rs.map Record.size).sum
  | [], p, e, h => h.symm
  | r :: rs, p, e, h => by
    rw [List.map_cons, List.sum_cons, ← Nat.add_assoc]
    exact h.2.eq_sum

/-- The records below the consumer position are those the invariant says are. -/
theorem Inv.filter_eq (h : Inv s done read rest) : s.records.filter (fun r => decide (r.pos < s.consumer)) = done := by
  have hconsumed := h.readTiled.le
  have hbelow : ∀ r ∈ done, decide (r.pos < s.consumer) = true := by
    intro r hr
    have hin := (h.doneTiled.mem hr).2
    have hsize := size_pos r
    exact decide_eq_true (by omega)
  have hbeyond : ∀ r ∈ read ++ rest, ¬ decide (r.pos < s.consumer) = true := by
    intro r hr
    rcases List.mem_append.1 hr with hr | hr
    · have hin := (h.readTiled.mem hr).1
      simpa using hin
    · have hin := (h.restTiled.mem hr).1
      simpa using hconsumed.trans hin
  rw [h.records, List.append_assoc, List.filter_append, List.filter_eq_self.2 hbelow, List.filter_eq_nil_iff.2 hbeyond,
    List.append_nil]

/-- **The drain.**  After every interleaving of the kernel's steps and the reader's: what has been drained is the events of
the committed records below the consumer position that are long enough, in the order of their reservation; none of the records
below it is busy, nor is the one that is being read, which is inside the pages; and the position is where a record ends, and not
beyond the producer's. -/
theorem drains {mem : Nat → Word} {run : List Event} (hrun : Run.exec step (new k mem) run = some s) :
    s.drained = eventsOf (s.records.filter (fun r => decide (r.pos < s.consumer))) ∧
    (∀ r ∈ s.records, r.pos < s.consumer → r.status ≠ .busy) ∧
    (∀ position, s.reading = some position → (∃ r ∈ s.records, r.pos = position ∧ r.Delivers) ∧
      (position &&& (capacity k - 1)) + 8 + eventBytes ≤ 2 * capacity k) ∧
    (∃ n, s.consumer = ((s.records.take n).map Record.size).sum) ∧ s.consumer ≤ s.producer := by
  obtain ⟨done, read, rest, h⟩ : ∃ done read rest, Inv s done read rest :=
    Run.exec_keeps (fun s : BpfRing k => ∃ done read rest, Inv s done read rest)
      (fun _ _ _ hinv hstep => hinv.elim fun _ h => h.elim fun _ h => h.elim fun _ h => h.step hstep)
      ⟨[], [], [], inv_new mem⟩ hrun
  refine ⟨?_, fun r hr hlt => ?_, fun position hreading => ?_, ⟨done.length, ?_⟩, h.readTiled.le.trans h.restTiled.le⟩
  · rw [h.filter_eq]
    exact h.drained
  · have hdone : r ∈ done := by
      rw [← h.filter_eq]
      exact List.mem_filter.2 ⟨hr, decide_eq_true hlt⟩
    exact h.released r (List.mem_append_left _ hdone)
  · have hposition : s.position = position := by
      unfold reading at hreading
      unfold BpfRing.position
      split at hreading
      · rename_i hcopy
        rw [hcopy]
        exact Option.some.inj hreading
      · cases hreading
    have hok := h.reader
    unfold reading at hreading
    split at hreading
    · rename_i hcopy
      rw [hcopy] at hok
      obtain ⟨-, -, r, tail, rfl, hdelivers, -⟩ := hok
      refine ⟨⟨r, ?_, h.restTiled.1.trans hposition, hdelivers⟩, ?_⟩
      · rw [h.records]
        simp
      · have hlong := hdelivers.2
        have hin := h.restTiled.mem List.mem_cons_self
        have hsize : r.size = 8 + (r.len + 7) / 8 * 8 := rfl
        have hconsumed := h.readTiled.le
        have hroom := h.room
        have hoffset : (position &&& (capacity k - 1)) < capacity k := by
          unfold capacity
          rw [Nat.and_two_pow_sub_one_eq_mod]
          exact Nat.mod_lt _ (Nat.two_pow_pos _)
        omega
    · cases hreading
  · rw [h.records, List.append_assoc, List.take_left]
    exact h.doneTiled.eq_sum.trans (Nat.zero_add _)

/-- Two records are reserved, and the second is committed before the reader begins and the first after; a second drain gets both
in the order of their reservation. -/
def outOfOrder : List Event :=
  [.reserve 224 0, .reserve 230 0, .write 0 0 5, .commit 1, .begin, .loadHeader, .commit 0, .finish, .begin, .loadHeader] ++
    List.replicate 57 .copyWord ++ [.loadHeader] ++ List.replicate 57 .copyWord ++ [.finish]

theorem drains_outOfOrder : ∃ s, Run.exec step (new 7 (fun _ => 1)) outOfOrder = some s ∧
    s.drained = [5 :: List.replicate 55 1, List.replicate 56 1] ∧
    s.drained = eventsOf (s.records.filter (fun r => decide (r.pos < s.consumer))) ∧ s.consumer ≤ s.producer := by
  have h : (Run.exec step (new 7 (fun _ => 1)) outOfOrder).any (fun s =>
      decide (s.drained = [5 :: List.replicate 55 1, List.replicate 56 1])) = true := by decide +kernel
  obtain ⟨s, hs, h⟩ := (Option.any_eq_true _ _).1 h
  obtain ⟨hevents, -, -, -, hle⟩ := drains hs
  exact ⟨s, hs, of_decide_eq_true h, hevents, hle⟩

end BpfRing
end AffinityGraph
