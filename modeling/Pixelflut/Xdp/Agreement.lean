import Pixelflut.Network.Basic
import Pixelflut.Xdp.Basic

/-!
# The two servers agree

Both servers are sent the same frames. `Agree` relates the framebuffer of the
DPDK server to the map of the XDP program entry by entry; `agree_step` keeps it
for one frame, `agree_run` for a run. What the XDP program does with a frame of
any length is `xdpPixelflut_touches`.
-/

namespace Pixelflut.Xdp

open Wire Framebuffer Network Lib.BlockHeap

/-- The DPDK server processes packet buffers in order. -/
def dpdkReceive (s : Memory × Fb) (ms : List RteMbuf) : Option (Memory × Fb) :=
  ms.foldlM (fun s m => dpdkThreadBody s.1 s.2 m) s

/-- The XDP program processes frames in order. -/
def xdpReceive (A : BpfArrayMap) (framebuffer : A.Map) (frames : List Frame) : Option A.Map :=
  frames.foldlM (fun framebuffer frame => (xdpPixelflut A framebuffer frame).map Prod.fst)
    framebuffer

/-- The map holds what the pixel block holds. -/
structure Agree (A : BpfArrayMap) (h : Memory) (fb : Fb) (framebuffer : A.Map) : Prop where
  size : fb.size = ⟨WIDTH, HEIGHT⟩
  cells : ∃ cells, Backed h fb cells ∧
    ∀ k : UInt32, k.toNat < maxEntries → A.lookup framebuffer k = cells[k.toNat]?

/-- A frame that does not draw on the map does not draw on the framebuffer. -/
theorem dpdkThreadBody_of_not_draws (h : Memory) {fb : Fb} (hsize : fb.size = ⟨WIDTH, HEIGHT⟩)
    {m : RteMbuf} (hm : m.frame.HasHeaders) (hd : ¬Draws m.frame) :
    dpdkThreadBody h fb m = some (h, fb) := by
  obtain ⟨htype, hdecode⟩ := m.decode_frame hm
  rw [dpdkThreadBody_eq]
  split
  case isTrue h6 =>
    obtain ⟨hcolumn, hrow, -⟩ := hdecode h6
    apply fbSetPixel_outside
    rw [hsize, hcolumn, hrow]
    exact fun hin => hd ⟨hm, htype.mp h6, hin⟩
  case isFalse => rfl

/-- A frame that draws on the map draws the same on the framebuffer. -/
theorem dpdkThreadBody_of_draws {h : Memory} {fb : Fb} {cells : List UInt32}
    (hb : Backed h fb cells) (hsize : fb.size = ⟨WIDTH, HEIGHT⟩) {m : RteMbuf}
    (hd : Draws m.frame) :
    ∃ h', dpdkThreadBody h fb m = some (h', { fb with pixelCounter := fb.pixelCounter + 1 }) ∧
      h'.block fb.pixels = some (cells.set (key m.frame).toNat (colour m.frame.byte)) := by
  obtain ⟨hm, h6, hx, hy⟩ := hd
  obtain ⟨htype, hdecode⟩ := m.decode_frame hm
  obtain ⟨hcolumn, hrow, hcolour⟩ := hdecode (htype.mpr h6)
  have hw : fb.size.width = WIDTH := by rw [hsize]
  have hh : fb.size.height = HEIGHT := by rw [hsize]
  obtain ⟨h', hset, -, hblock, -⟩ :=
    hb.fbSetPixel (colour m.frame.byte) (hw ▸ hx) (hh ▸ hy)
  refine ⟨h', ?_, ?_⟩
  · rw [dpdkThreadBody_eq, if_pos (htype.mpr h6), hcolumn, hrow, hcolour]
    exact hset
  · rw [hblock, hw, UInt32.add_comm]
    rfl

/-- **Step lemma.** -/
theorem agree_step {A : BpfArrayMap} {h : Memory} {fb : Fb} {framebuffer : A.Map}
    (ha : Agree A h fb framebuffer) {m : RteMbuf} (hm : m.frame.HasHeaders) :
    ∃ h' fb' framebuffer', dpdkThreadBody h fb m = some (h', fb') ∧
      xdpPixelflut A framebuffer m.frame = some (framebuffer', XDP_DROP) ∧
      Agree A h' fb' framebuffer' := by
  rw [xdpPixelflut_eq]
  by_cases hd : Draws m.frame
  · obtain ⟨cells, hb, hcells⟩ := ha.cells
    obtain ⟨h', hbody, hblock⟩ := dpdkThreadBody_of_draws hb ha.size hd
    have hlen : cells.length = maxEntries := by rw [hb.length, ha.size]; rfl
    rw [if_pos hd]
    refine ⟨h', _, _, hbody, rfl, ha.size, _, ⟨hblock, ?_⟩, ?_⟩
    · rw [List.length_set, hb.length]
    · intro k hk
      rw [A.lookup_update _ _ _ _ (key_lt hd)]
      by_cases hkey : k = key m.frame
      · subst hkey
        rw [if_pos rfl, List.getElem?_set_self (by rw [hlen]; exact hk)]
      · have hne : (key m.frame).toNat ≠ k.toNat := fun he => hkey (UInt32.toNat_inj.mp he.symm)
        rw [if_neg hkey, List.getElem?_set_ne hne, hcells k hk]
  · rw [if_neg hd]
    exact ⟨h, fb, framebuffer, dpdkThreadBody_of_not_draws h ha.size hm hd, rfl, ha⟩

/-- **Run lemma.** -/
theorem agree_run {A : BpfArrayMap} {h : Memory} {fb : Fb} {framebuffer : A.Map}
    (ha : Agree A h fb framebuffer) (ms : List RteMbuf) (hms : ∀ m ∈ ms, m.frame.HasHeaders) :
    ∃ h' fb' framebuffer', dpdkReceive (h, fb) ms = some (h', fb') ∧
      xdpReceive A framebuffer (ms.map RteMbuf.frame) = some framebuffer' ∧
      Agree A h' fb' framebuffer' := by
  induction ms generalizing h fb framebuffer with
  | nil => exact ⟨h, fb, framebuffer, rfl, rfl, ha⟩
  | cons m ms ih =>
    obtain ⟨h₁, fb₁, framebuffer₁, hdpdk, hxdp, ha₁⟩ := agree_step ha (hms m List.mem_cons_self)
    obtain ⟨h₂, fb₂, framebuffer₂, hdpdk₂, hxdp₂, ha₂⟩ :=
      ih ha₁ fun m' hm' => hms m' (List.mem_cons_of_mem m hm')
    refine ⟨h₂, fb₂, framebuffer₂, ?_, ?_, ha₂⟩
    · rw [dpdkReceive, List.foldlM_cons, hdpdk]
      exact hdpdk₂
    · rw [xdpReceive, List.map_cons, List.foldlM_cons, hxdp]
      exact hxdp₂

/-- Zeroed canvases agree. -/
theorem agree_start {A : BpfArrayMap} {framebuffer : A.Map} {h₀ h : Memory} {fb : Fb}
    {fbOk pixelsOk : Bool} {numaNode : UInt32}
    (halloc : fbAlloc h₀ WIDTH HEIGHT fbOk pixelsOk numaNode = (h, .ok fb))
    (hzero : ∀ k : UInt32, k.toNat < maxEntries → A.lookup framebuffer k = some 0) :
    Agree A h fb framebuffer := by
  obtain ⟨rfl, hb, -⟩ := fbAlloc_spec halloc
  have hcount : cellCount WIDTH HEIGHT = WIDTH.toNat * HEIGHT.toNat := cellCount_eq (by decide)
  refine ⟨rfl, _, ⟨hb, by rw [List.length_replicate, hcount]⟩, fun k hk => ?_⟩
  have hlt : k.toNat < cellCount WIDTH HEIGHT := by rw [hcount]; exact hk
  rw [hzero k hk, List.getElem?_replicate_of_lt hlt]

/-- On any frame the program ends without a read behind the frame, and writes
one entry of the map at most. -/
theorem xdpPixelflut_touches (A : BpfArrayMap) (framebuffer : A.Map) (frame : Frame) :
    ∃ framebuffer', xdpPixelflut A framebuffer frame = some (framebuffer', XDP_DROP) ∧
      (framebuffer' = framebuffer ∨ ∃ k v : UInt32, k.toNat < maxEntries ∧
        framebuffer' = A.bpfMapUpdateElem framebuffer k v ∧
        ∀ k', k' ≠ k → A.lookup framebuffer' k' = A.lookup framebuffer k') := by
  refine ⟨_, xdpPixelflut_eq A framebuffer frame, ?_⟩
  by_cases hd : Draws frame
  · rw [if_pos hd]
    refine .inr ⟨key frame, colour frame.byte, key_lt hd, rfl, fun k' hk' => ?_⟩
    rw [A.lookup_update _ _ _ _ (key_lt hd), if_neg hk']
  · rw [if_neg hd]
    exact .inl rfl

/-- **The servers agree.** After every frame of a run the map entries are the
pixels; and on any frame, short ones included, the XDP program stays inside the
frame and the map. -/
theorem servers_agree (A : BpfArrayMap) {h₀ h₁ : Memory} {fb₁ : Fb} {framebuffer₁ : A.Map}
    {fbOk pixelsOk : Bool} {numaNode : UInt32}
    (halloc : fbAlloc h₀ WIDTH HEIGHT fbOk pixelsOk numaNode = (h₁, .ok fb₁))
    (hzero : ∀ k : UInt32, k.toNat < maxEntries → A.lookup framebuffer₁ k = some 0)
    (ms : List RteMbuf) (hms : ∀ m ∈ ms, m.frame.HasHeaders) :
    (∀ n, ∃ h fb framebuffer, dpdkReceive (h₁, fb₁) (ms.take n) = some (h, fb) ∧
      xdpReceive A framebuffer₁ ((ms.take n).map RteMbuf.frame) = some framebuffer ∧
      ∀ k : UInt32, k.toNat < 921600 → ∃ v, A.lookup framebuffer k = some v ∧
        h.load fb.pixels k.toNat = some v) ∧
    ∀ (framebuffer : A.Map) (frame : Frame), ∃ framebuffer',
      xdpPixelflut A framebuffer frame = some (framebuffer', XDP_DROP) ∧
      (framebuffer' = framebuffer ∨ ∃ k v : UInt32, k.toNat < maxEntries ∧
        framebuffer' = A.bpfMapUpdateElem framebuffer k v ∧
        ∀ k', k' ≠ k → A.lookup framebuffer' k' = A.lookup framebuffer k') := by
  refine ⟨fun n => ?_, xdpPixelflut_touches A⟩
  obtain ⟨h, fb, framebuffer, hdpdk, hxdp, ha⟩ :=
    agree_run (agree_start halloc hzero) (ms.take n) fun m hm => hms m (List.mem_of_mem_take hm)
  refine ⟨h, fb, framebuffer, hdpdk, hxdp, fun k hk => ?_⟩
  obtain ⟨cells, hb, hcells⟩ := ha.cells
  have hlt : k.toNat < cells.length := by
    rw [hb.length, ha.size]
    exact hk
  refine ⟨cells[k.toNat], ?_, ?_⟩
  · rw [hcells k hk, List.getElem?_eq_getElem hlt]
  · rw [Heap.load_of_block hb.block, List.getElem?_eq_getElem hlt]

/-- An array map as a table of its entries. -/
def tableMap : BpfArrayMap where
  Map := UInt32 → UInt32
  lookup map k := if k.toNat < maxEntries then some (map k) else none
  bpfMapUpdateElem map k v :=
    if k.toNat < maxEntries then fun k' => if k' = k then v else map k' else map
  lookup_update map k v k' hk := by
    by_cases hkey : k' = k
    · subst hkey
      simp only [if_pos hk, ↓reduceIte]
    · simp only [if_pos hk, if_neg hkey]
  update_of_le map k v hk := if_neg (Nat.not_lt.mpr hk)

/-- A pixel at the far corner, one outside the canvas, and a frame that is not IPv6. -/
def cornerFrames : List RteMbuf :=
  [.ofFrame (ipv6Frame [0x04, 0xFF, 0x02, 0xCF, 0xFF, 0x80, 0x7F, 0]),
    .ofFrame (ipv6Frame [0x05, 0x00, 0x00, 0x00, 0xFF, 0xFF, 0xFF, 0]),
    .ofFrame (List.replicate 14 0)]

theorem servers_agree_on_corner :
    (∀ n, ∃ h fb framebuffer,
      dpdkReceive (calloc ⟨[]⟩ (WIDTH * HEIGHT).toUInt64, ⟨⟨WIDTH, HEIGHT⟩, 0, 0, 0, 0⟩)
        (cornerFrames.take n) = some (h, fb) ∧
      xdpReceive tableMap (fun _ => 0) ((cornerFrames.take n).map RteMbuf.frame) =
        some framebuffer ∧
      ∀ k : UInt32, k.toNat < 921600 → ∃ v, tableMap.lookup framebuffer k = some v ∧
        h.load fb.pixels k.toNat = some v) ∧
    ∀ (framebuffer : tableMap.Map) (frame : Frame), ∃ framebuffer',
      xdpPixelflut tableMap framebuffer frame = some (framebuffer', XDP_DROP) ∧
      (framebuffer' = framebuffer ∨ ∃ k v : UInt32, k.toNat < maxEntries ∧
        framebuffer' = tableMap.bpfMapUpdateElem framebuffer k v ∧
        ∀ k', k' ≠ k → tableMap.lookup framebuffer' k' = tableMap.lookup framebuffer k') :=
  @servers_agree tableMap ⟨[]⟩ _ _ _ true true 0 rfl (fun _ hk => if_pos hk) cornerFrames (by decide)

end Pixelflut.Xdp
