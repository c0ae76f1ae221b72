/-
  `VirtualMemory` as a flat byte memory: when reads are right, and when they are not.

  `flatByte ms c a` is the byte a flat memory has at address `a`: the one stored in the backing
  of the span that covers `a`, at the offset from that span's start. Writes go there.
  `readLoop_eq_ret` says what reads return: the byte of the same backing at the address itself,
  not at its offset. So a read of given cells is right exactly when the two bytes agree at each
  address of the range (`readsFlat_iff`), and whatever the cells hold exactly when the range is
  empty or lies in the span that starts at page 0 (`flatOn_iff`).
-/
import Pomelo.Memory.VirtLayout

namespace Pomelo

open Lib

variable {T : Type} {ms : List (Mapping T)}

/-! ## One iteration -/

/-- How much of an access of `rem` bytes at `addr` the mapping serves. -/
def Mapping.serves (m : Mapping T) (addr rem : Nat) : Nat :=
  min rem (m.addr + m.mem.pages * 4096 - addr)

theorem Mapping.serves_pos {m : Mapping T} {addr rem : Nat} (ha : m.Covers addr)
    (hrem : 0 < rem) : 0 < m.serves addr rem := by
  have := ha.2
  unfold serves
  omega

/-- What an iteration serves ends at the end of the span, unless it ends the access. -/
theorem Mapping.serves_end {m : Mapping T} (hal : m.addr % 4096 = 0) {addr rem : Nat}
    (ha : m.Covers addr) (hlt : m.serves addr rem < rem) :
    (addr + m.serves addr rem) % 4096 = 0 := by
  obtain ⟨h1, h2⟩ := ha
  unfold serves at hlt ⊢
  omega

theorem Mapping.covers_of_lt_serves {m : Mapping T} {addr rem : Nat} (ha : m.Covers addr)
    {i : Nat} (hi : i < m.serves addr rem) : m.Covers (addr + i) := by
  obtain ⟨h1, h2⟩ := ha
  unfold serves at hi
  unfold Covers
  omega

/-- One iteration of `read` hands the address itself to the backing. -/
theorem readLoop_step (h : ValidMappings ms) (hs : SmallSpans ms) {m : Mapping T} (hm : m ∈ ms)
    {c : Cells} {len fuel addr rem so : Nat} {out : List UInt8} (ha : m.Covers addr)
    (hrem : 0 < rem) (hlt : addr + rem < u32Size) (hso : so + rem ≤ len)
    (hlen : len < u32Size) :
    (mapAll ms).readLoop c len (fuel + 1) addr rem (addr % 4096) so out =
      Memory.read m.mem c addr (m.serves addr rem) >>= fun chunk =>
        (mapAll ms).readLoop c len fuel (addr + m.serves addr rem) (rem - m.serves addr rem) 0
          (so + m.serves addr rem) (out ++ chunk) := by
  have hk : m.serves addr rem ≤ rem := Nat.min_le_left _ _
  rw [VirtualMemory.readLoop, if_pos hrem, nextChunk_of_covers h hs hm ha, Outcome.ret_bind]
  change (addU32 so (m.serves addr rem) >>= _) = _
  rw [addU32_of_lt (by omega), Outcome.ret_bind, decide_eq_true (by omega), Outcome.assert_true,
    Outcome.ret_bind]
  dsimp only [Mapping.span]
  congr 1
  funext chunk
  change (addU32 addr (m.serves addr rem) >>= _) = _
  rw [addU32_of_lt (by omega), Outcome.ret_bind]
  change (addU32 so (m.serves addr rem) >>= _) = _
  rw [addU32_of_lt (by omega), Outcome.ret_bind]
  change (subU32 rem (m.serves addr rem) >>= _) = _
  rw [subU32_of_le hk, Outcome.ret_bind]

/-- The offset that `write` hands to the backing. -/
theorem offset_in_span {q a : Nat} (hq : q < 1048576) :
    shlU32 q 12 ||| (a &&& 0xFFF) = q * 4096 + a % 4096 := by
  have hand : a &&& 0xFFF = a % 4096 := Nat.and_two_pow_sub_one_eq_mod a 12
  have hlow : a % 4096 < 2 ^ 12 := Nat.mod_lt _ (by decide)
  rw [shlU32_page hq, hand, show q * 4096 = q <<< 12 from (Nat.shiftLeft_eq q 12).symm,
    Nat.shiftLeft_add_eq_or_of_lt hlow]

/-- One iteration of `write` stores the bytes at the address's offset in the backing. -/
theorem writeLoop_step (h : ValidMappings ms) (hs : SmallSpans ms) {m : Mapping T} (hm : m ∈ ms)
    {c : Cells} {fuel addr rem so : Nat} {bytes : List UInt8} (ha : m.Covers addr)
    (hrem : 0 < rem) (hlt : addr + rem < u32Size) (hso : so + rem ≤ bytes.length)
    (hlen : bytes.length < u32Size) :
    (mapAll ms).writeLoop bytes (fuel + 1) addr rem (addr % 4096) so c =
      (mapAll ms).writeLoop bytes fuel (addr + m.serves addr rem) (rem - m.serves addr rem) 0
        (so + m.serves addr rem)
        (writeCells c (m.cell addr) ((bytes.drop so).take (m.serves addr rem))) := by
  have hk : m.serves addr rem ≤ rem := Nat.min_le_left _ _
  have hk2 : m.serves addr rem ≤ m.addr + m.mem.pages * 4096 - addr := Nat.min_le_right _ _
  have hal := h.aligned m hm
  obtain ⟨h1, h2⟩ := ha
  have hsp := h.inSpace m hm
  have hoff : shlU32 (addr / 4096 - m.addr / 4096) 12 ||| (addr &&& 0xFFF) = addr - m.addr := by
    rw [offset_in_span (by omega)]
    omega
  have hchunk : ((bytes.drop so).take (m.serves addr rem)).length = m.serves addr rem := by
    simp
    omega
  have hin : addr - m.addr + ((bytes.drop so).take (m.serves addr rem)).length ≤
      m.mem.pages * 4096 := by
    rw [hchunk]
    omega
  have hwrite := PageSlice.write_of_le c hin
  rw [VirtualMemory.writeLoop, if_pos hrem, nextChunk_of_covers h hs hm ⟨h1, h2⟩,
    Outcome.ret_bind]
  change (addU32 so (m.serves addr rem) >>= _) = _
  rw [addU32_of_lt (by omega), Outcome.ret_bind, decide_eq_true (by omega), Outcome.assert_true,
    Outcome.ret_bind]
  dsimp only [Mapping.span]
  rw [hoff]
  change (Memory.write m.mem c (addr - m.addr)
    ((bytes.drop so).take (m.serves addr rem)) >>= _) = _
  rw [hwrite, Outcome.ret_bind]
  change (addU32 addr (m.serves addr rem) >>= _) = _
  rw [addU32_of_lt (by omega), Outcome.ret_bind]
  change (addU32 so (m.serves addr rem) >>= _) = _
  rw [addU32_of_lt (by omega), Outcome.ret_bind]
  change (subU32 rem (m.serves addr rem) >>= _) = _
  rw [subU32_of_le hk, Outcome.ret_bind]
  rfl

/-! ## What reads return -/

/-- A read loop that returns has appended, for each address, the byte of its span's backing at
    the untranslated address. -/
theorem readLoop_eq_ret (h : ValidMappings ms) (hs : SmallSpans ms) {c : Cells} {len : Nat}
    (hlen : len < u32Size) {fuel addr rem po so : Nat} {out bs : List UInt8}
    (hmap : Mapped ms addr rem) (hpo : 0 < rem → po = addr % 4096)
    (hlt : addr + rem < u32Size) (hso : so + rem ≤ len) (hf : rem < fuel) :
    (mapAll ms).readLoop c len fuel addr rem po so out = .ret bs ↔
      ∃ ys, bs = out ++ ys ∧ ys.length = rem ∧ ∀ i < rem, ∀ m ∈ ms, m.Covers (addr + i) →
        addr + i < m.mem.pages * 4096 ∧ ys[i]? = some (c (m.mem.base + (addr + i))) := by
  induction fuel generalizing addr rem po so out with
  | zero => omega
  | succ fuel ih =>
    by_cases hrem : 0 < rem
    · obtain ⟨m, hm, ha⟩ := hmap 0 hrem
      rw [Nat.add_zero] at ha
      have hkpos := m.serves_pos ha hrem
      have hkle : m.serves addr rem ≤ rem := Nat.min_le_left _ _
      rw [hpo hrem, readLoop_step h hs hm ha hrem hlt hso hlen]
      by_cases hfits : addr + m.serves addr rem ≤ m.mem.pages * 4096
      · rw [PageSlice.read_of_le c hfits, Outcome.ret_bind,
          ih hmap.tail (fun hr => (m.serves_end (h.aligned m hm) ha (by omega)).symm)
            (by omega) (by omega) (by omega)]
        constructor
        · rintro ⟨ys, rfl, hys, hall⟩
          refine ⟨readCells c (m.mem.base + addr) (m.serves addr rem) ++ ys,
            by rw [List.append_assoc], by simp; omega, fun i hi m' hm' hcov => ?_⟩
          by_cases hik : i < m.serves addr rem
          · have hmm : m' = m := h.eq_of_covers hm' hm hcov (m.covers_of_lt_serves ha hik)
            subst hmm
            refine ⟨by omega, ?_⟩
            rw [List.getElem?_append_left (by simpa using hik),
              List.getElem?_eq_getElem (by simpa using hik), readCells_getElem, Nat.add_assoc]
          · have hi' := hall (i - m.serves addr rem) (by omega) m' hm'
            have hsplit : addr + m.serves addr rem + (i - m.serves addr rem) = addr + i := by
              omega
            rw [hsplit] at hi'
            rw [List.getElem?_append_right (by simp; omega), readCells_length]
            exact hi' hcov
        · rintro ⟨ys, rfl, hys, hall⟩
          have htake : ys.take (m.serves addr rem) =
              readCells c (m.mem.base + addr) (m.serves addr rem) := by
            apply List.ext_getElem
            · simp
              omega
            · intro i h1 h2
              rw [readCells_length] at h2
              have hi := (hall i (by omega) m hm (m.covers_of_lt_serves ha h2)).2
              rw [List.getElem?_eq_getElem (by omega), Option.some.injEq] at hi
              rw [List.getElem_take, hi, readCells_getElem, Nat.add_assoc]
          refine ⟨ys.drop (m.serves addr rem), ?_, by simp; omega, fun i hi m' hm' hcov => ?_⟩
          · rw [← htake, List.append_assoc, List.take_append_drop]
          · rw [List.getElem?_drop, Nat.add_assoc]
            rw [Nat.add_assoc] at hcov
            exact hall _ (by omega) m' hm' hcov
      · rw [PageSlice.read_of_gt c (by omega), Outcome.panic_bind]
        refine ⟨fun hp => (by cases hp), ?_⟩
        rintro ⟨ys, _, _, hall⟩
        have hlast : m.serves addr rem - 1 < m.serves addr rem := by omega
        have hin := (hall _ (by omega) m hm (m.covers_of_lt_serves ha hlast)).1
        omega
    · have hzero : rem = 0 := by omega
      subst hzero
      rw [VirtualMemory.readLoop, if_neg hrem, Outcome.pure_eq]
      constructor
      · intro heq
        injection heq with heq
        exact ⟨[], by simp [heq], rfl, fun i hi => absurd hi (Nat.not_lt_zero i)⟩
      · rintro ⟨ys, rfl, hys, _⟩
        rw [List.length_eq_zero_iff.mp hys, List.append_nil]

/-! ## The flat memory -/

/-- The byte of the flat memory at address `a`: the one that the backing of the span covering
    `a` stores at the offset from the span's start. -/
def flatByte (ms : List (Mapping T)) (c : Cells) (a : Nat) : UInt8 :=
  match ms.find? fun m => decide (m.Covers a) with
  | some m => c (m.cell a)
  | none => 0

theorem flatByte_of_covers (h : ValidMappings ms) {m : Mapping T} (hm : m ∈ ms) {a : Nat}
    (ha : m.Covers a) (c : Cells) : flatByte ms c a = c (m.cell a) := by
  unfold flatByte
  cases hf : ms.find? fun m => decide (m.Covers a) with
  | none =>
    rw [List.find?_eq_none] at hf
    exact absurd (decide_eq_true ha) (hf m hm)
  | some m' =>
    have hcov : decide (m'.Covers a) = true :=
      List.find?_some (p := fun m : Mapping T => decide (m.Covers a)) hf
    rw [h.eq_of_covers (List.mem_of_find?_eq_some hf) hm (of_decide_eq_true hcov) ha]

/-- The flat memory's `n` bytes from address `addr`. -/
def flatBytes (ms : List (Mapping T)) (c : Cells) (addr n : Nat) : List UInt8 :=
  (List.range n).map fun i => flatByte ms c (addr + i)

/-- `read` returns the bytes of the flat memory. -/
def ReadsFlat (ms : List (Mapping T)) (c : Cells) (addr n : Nat) : Prop :=
  Memory.read (mapAll ms) c addr n = .ret (flatBytes ms c addr n)

/-- At every address of the range the address itself is an offset inside the backing of its
    span, and the byte there is the byte at the offset from the span's start. -/
def UntranslatedSame (ms : List (Mapping T)) (c : Cells) (addr n : Nat) : Prop :=
  ∀ i < n, ∀ m ∈ ms, m.Covers (addr + i) →
    addr + i < m.mem.pages * 4096 ∧ c (m.mem.base + (addr + i)) = c (m.cell (addr + i))

/-- For given cells: a read is right exactly when not translating the addresses makes no
    difference. -/
theorem readsFlat_iff (h : ValidMappings ms) (hs : SmallSpans ms) {addr n : Nat}
    (hmap : Mapped ms addr n) (hlt : addr + n < u32Size) (c : Cells) :
    ReadsFlat ms c addr n ↔ UntranslatedSame ms c addr n := by
  have hn : n % u32Size = n := Nat.mod_eq_of_lt (by omega)
  have hand : addr &&& 0xFFF = addr % 4096 := Nat.and_two_pow_sub_one_eq_mod addr 12
  have hread : Memory.read (mapAll ms) c addr n =
      (mapAll ms).readLoop c n (n + 1) addr n (addr % 4096) 0 [] := by
    change (mapAll ms).readLoop c n (n + 1) addr (n % u32Size) (addr &&& 0xFFF) 0 [] = _
    rw [hn, hand]
  have hflat : ∀ i < n, ∀ m ∈ ms, m.Covers (addr + i) →
      (flatBytes ms c addr n)[i]? = some (c (m.cell (addr + i))) := by
    intro i hi m hm hcov
    unfold flatBytes
    rw [List.getElem?_map, List.getElem?_range hi, Option.map_some,
      flatByte_of_covers h hm hcov]
  unfold ReadsFlat
  rw [hread, readLoop_eq_ret h hs (by omega) hmap (fun _ => rfl) hlt (by omega) (by omega)]
  constructor
  · rintro ⟨ys, hys, _, hall⟩ i hi m hm hcov
    rw [List.nil_append] at hys
    subst hys
    obtain ⟨hin, hb⟩ := hall i hi m hm hcov
    rw [hflat i hi m hm hcov, Option.some.injEq] at hb
    exact ⟨hin, hb.symm⟩
  · intro hsame
    refine ⟨_, (List.nil_append _).symm, by simp [flatBytes], fun i hi m hm hcov => ?_⟩
    obtain ⟨hin, hb⟩ := hsame i hi m hm hcov
    exact ⟨hin, by rw [hflat i hi m hm hcov, hb]⟩

/-- Read after write, for every content and every data of the range's length. -/
def WriteRead (ms : List (Mapping T)) (addr n : Nat) : Prop :=
  ∀ c data, data.length = n → ∃ c', Memory.write (mapAll ms) c addr data = .ret c' ∧
    Memory.read (mapAll ms) c' addr n = .ret data

/-- `read_uN` after `write_uN`, for the width of `n` bytes. -/
def UIntWriteRead (ms : List (Mapping T)) (addr n : Nat) : Prop :=
  ∀ c v, v < 256 ^ n → ∃ c', Memory.writeUInt n (mapAll ms) c addr v = .ret c' ∧
    Memory.readUInt n (mapAll ms) c' addr = .ret v

/-- The `VirtualMemory` is a flat byte memory on the range, whatever the cells hold. -/
structure FlatOn (ms : List (Mapping T)) (addr n : Nat) : Prop where
  reads : ∀ c, ReadsFlat ms c addr n
  writeRead : WriteRead ms addr n
  uint : UIntWriteRead ms addr n

/-- The range is empty or lies in the span mapped at page 0. -/
def InZeroSpan (ms : List (Mapping T)) (addr n : Nat) : Prop :=
  n = 0 ∨ ∃ m ∈ ms, m.addr = 0 ∧ addr + n ≤ m.mem.pages * 4096

theorem InZeroSpan.untranslatedSame (h : ValidMappings ms) {addr n : Nat}
    (hz : InZeroSpan ms addr n) (c : Cells) : UntranslatedSame ms c addr n := by
  intro i hi m hm hcov
  rcases hz with hz | ⟨m', hm', h0, hend⟩
  · omega
  · have hcov' : m'.Covers (addr + i) := by
      unfold Mapping.Covers
      omega
    have heq : m = m' := h.eq_of_covers hm hm' hcov hcov'
    subst heq
    refine ⟨by omega, ?_⟩
    unfold Mapping.cell
    rw [h0, Nat.sub_zero]

theorem write_eq_writeLoop {addr : Nat} {data : List UInt8} (hlen : data.length < u32Size)
    (c : Cells) : Memory.write (mapAll ms) c addr data =
      (mapAll ms).writeLoop data (data.length + 1) addr data.length (addr % 4096) 0 c := by
  have hn : data.length % u32Size = data.length := Nat.mod_eq_of_lt hlen
  have hand : addr &&& 0xFFF = addr % 4096 := Nat.and_two_pow_sub_one_eq_mod addr 12
  show (mapAll ms).writeLoop data (data.length + 1) addr (data.length % u32Size)
    (addr &&& 0xFFF) 0 c = _
  rw [hn, hand]

/-- A write inside one span is one write to its backing. -/
theorem write_in_span (h : ValidMappings ms) (hs : SmallSpans ms) {m : Mapping T} (hm : m ∈ ms)
    {addr : Nat} {data : List UInt8} (hstart : m.addr ≤ addr)
    (hend : addr + data.length ≤ m.addr + m.mem.pages * 4096)
    (hlt : addr + data.length < u32Size) (c : Cells) :
    Memory.write (mapAll ms) c addr data = .ret (writeCells c (m.cell addr) data) := by
  rw [write_eq_writeLoop (by omega)]
  by_cases hpos : 0 < data.length
  · have ha : m.Covers addr := ⟨hstart, by omega⟩
    have hk : m.serves addr data.length = data.length := Nat.min_eq_left (by omega)
    obtain ⟨f, hf⟩ : ∃ f, data.length = f + 1 := ⟨data.length - 1, by omega⟩
    rw [writeLoop_step h hs hm ha hpos hlt (by omega) (by omega), hk, Nat.sub_self,
      List.drop_zero, List.take_length]
    rw [hf, VirtualMemory.writeLoop, if_neg (by omega), Outcome.pure_eq]
  · have hnil : data = [] := List.length_eq_zero_iff.mp (by omega)
    subst hnil
    rw [VirtualMemory.writeLoop, if_neg hpos, Outcome.pure_eq]
    congr 1
    funext x
    simp [writeCells]

theorem InZeroSpan.writeRead (h : ValidMappings ms) (hs : SmallSpans ms) {addr n : Nat}
    (hmap : Mapped ms addr n) (hlt : addr + n < u32Size) (hz : InZeroSpan ms addr n) :
    WriteRead ms addr n := by
  intro c data hdata
  subst hdata
  have hreads := fun c => (readsFlat_iff h hs hmap hlt c).mpr (hz.untranslatedSame h c)
  rcases hz with hz | ⟨m, hm, h0, hend⟩
  · rw [List.length_eq_zero_iff] at hz
    subst hz
    exact ⟨c, rfl, hreads c⟩
  · refine ⟨_, write_in_span h hs hm (by omega) (by omega) hlt c, ?_⟩
    rw [hreads]
    congr 1
    -- the flat bytes of the range are the cells just written
    apply List.ext_getElem
    · simp [flatBytes]
    · intro i h1 h2
      have hcov : m.Covers (addr + i) := by
        unfold Mapping.Covers
        omega
      have hcell : m.cell (addr + i) = m.cell addr + i := by
        unfold Mapping.cell
        omega
      simp only [flatBytes, List.getElem_map, List.getElem_range]
      rw [flatByte_of_covers h hm hcov, hcell, writeCells_in h2]

theorem WriteRead.uint {addr n : Nat} (h : WriteRead ms addr n) : UIntWriteRead ms addr n := by
  intro c v hv
  obtain ⟨c', hw, hr⟩ := h c (leBytes n v) (leBytes_length n v)
  refine ⟨c', hw, ?_⟩
  unfold Memory.readUInt
  rw [hr, Outcome.ret_bind, Outcome.pure_eq, leValue_leBytes, Nat.mod_eq_of_lt hv]

/-- When every content is read right, every address of the range is in the span at page 0. -/
theorem inZeroSpan_of_reads (h : ValidMappings ms) (hs : SmallSpans ms) {addr n : Nat}
    (hmap : Mapped ms addr n) (hlt : addr + n < u32Size) (hr : ∀ c, ReadsFlat ms c addr n) :
    InZeroSpan ms addr n := by
  have hzero : ∀ i < n, ∀ m ∈ ms, m.Covers (addr + i) →
      m.addr = 0 ∧ addr + i < m.mem.pages * 4096 := by
    intro i hi m hm hcov
    -- the content that is 1 at the cell read and 0 elsewhere
    have hsame := (readsFlat_iff h hs hmap hlt
      (fun x => if x = m.mem.base + (addr + i) then 1 else 0)).mp (hr _)
    obtain ⟨hin, hb⟩ := hsame i hi m hm hcov
    refine ⟨?_, hin⟩
    by_contra hne
    have hcell : m.cell (addr + i) ≠ m.mem.base + (addr + i) := by
      have hge := hcov.1
      unfold Mapping.cell
      omega
    dsimp only at hb
    rw [if_pos rfl, if_neg hcell] at hb
    exact absurd hb (by decide)
  rcases Nat.eq_zero_or_pos n with hn | hn
  · exact Or.inl hn
  · right
    obtain ⟨m, hm, hcov⟩ := hmap (n - 1) (by omega)
    obtain ⟨h0, hin⟩ := hzero (n - 1) (by omega) m hm hcov
    exact ⟨m, hm, h0, by omega⟩

/-- **The flat memory.** On a mapped range of valid spans, whatever the memory holds, reads are
    flat, a read after a write returns what was written, and so do `read_uN` and `write_uN`,
    exactly when the range is empty or lies in the span at page 0. For a given content, a read
    is flat exactly when untranslated addresses find the same bytes. -/
theorem flatOn_iff (ms : List (Mapping T)) (h : ValidMappings ms) (hs : SmallSpans ms)
    (addr n : Nat) (hmap : Mapped ms addr n) (hlt : addr + n < u32Size) :
    (FlatOn ms addr n ↔ InZeroSpan ms addr n) ∧
      ∀ c, ReadsFlat ms c addr n ↔ UntranslatedSame ms c addr n := by
  refine ⟨⟨fun hf => inZeroSpan_of_reads h hs hmap hlt hf.reads, fun hz => ?_⟩,
    readsFlat_iff h hs hmap hlt⟩
  have hwr := hz.writeRead h hs hmap hlt
  exact ⟨fun c => (readsFlat_iff h hs hmap hlt c).mpr (hz.untranslatedSame h c), hwr, hwr.uint⟩

/-- Two neighbouring spans of one page each, backed by host pages that are no neighbours. -/
def twoPages : List (Mapping Unit) :=
  [{ addr := 0x1000, mem := ⟨0, 1⟩, tag := () }, { addr := 0x2000, mem := ⟨0x8000, 1⟩, tag := () }]

theorem twoPages_valid : ValidMappings twoPages where
  aligned := by simp [twoPages]
  nonEmpty := by simp [twoPages]
  inSpace := by simp [twoPages]
  disjoint := by
    refine List.pairwise_pair.mpr (Extent.Apart.disjoint (Or.inl ?_))
    decide

theorem twoPages_small : SmallSpans twoPages := by simp [SmallSpans, twoPages]

/-- Eight bytes from the middle of the first page into the second. -/
theorem twoPages_mapped : Mapped twoPages 0x1FFC 8 := by
  intro i hi
  by_cases hfirst : i < 4
  · refine ⟨_, List.mem_cons_self, ?_⟩
    unfold Mapping.Covers
    dsimp only
    omega
  · refine ⟨_, List.mem_cons_of_mem _ (List.mem_singleton_self _), ?_⟩
    unfold Mapping.Covers
    dsimp only
    omega

theorem flatOn_iff_twoPages : (FlatOn twoPages 0x1FFC 8 ↔ InZeroSpan twoPages 0x1FFC 8) ∧
    ∀ c, ReadsFlat twoPages c 0x1FFC 8 ↔ UntranslatedSame twoPages c 0x1FFC 8 :=
  flatOn_iff twoPages twoPages_valid twoPages_small 0x1FFC 8 twoPages_mapped (by decide)

/-- One page, mapped at page 1. -/
def onePage : List (Mapping Unit) := [{ addr := 0x1000, mem := ⟨0, 1⟩, tag := () }]

theorem onePage_valid : ValidMappings onePage where
  aligned := by simp [onePage]
  nonEmpty := by simp [onePage]
  inSpace := by simp [onePage]
  disjoint := by simp [onePage]

theorem onePage_mapped : Mapped onePage 0x1000 1 := by
  intro i hi
  have hi0 : i = 0 := by omega
  subst hi0
  exact ⟨_, List.mem_singleton_self _, by decide⟩

/-- With one page mapped at page 1, the read of one byte there is out of range: it asks the
    backing of 0x1000 bytes for offset 0x1000. -/
theorem flatOn_fails : ¬ ∀ (ms : List (Mapping Unit)), ValidMappings ms → SmallSpans ms →
    ∀ addr n, Mapped ms addr n → addr + n < u32Size → FlatOn ms addr n := by
  intro hall
  have hflat := hall onePage onePage_valid (by simp [SmallSpans, onePage]) 0x1000 1
    onePage_mapped (by decide)
  have hread := hflat.reads (fun _ => 0)
  have hpanic : Memory.read (mapAll onePage) (fun _ => 0) 0x1000 1 = .panic .sliceIndex := by
    decide +kernel
  unfold ReadsFlat at hread
  rw [hpanic] at hread
  cases hread

end Pomelo
