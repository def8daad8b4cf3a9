import PrismaticOS.Gpu.Levels

/-!
# Textures

`gpu_create_texture`, `gpu_map_texture` and `gpu_unmap_texture` of
`graphics/src/gpu/gpu_backend.c`.

## The model

A call of `malloc` is a parameter: what it returns for a size, `none` for NULL. A texture comes
with the size of the memory that its `data` points to. The contents of that memory and the
messages are left out. A shift by 32 or more, which the language leaves undefined, is that of
the processor: by the remainder.

## What is proved

* `mipOffset_eq` and `textureSize_eq` — what the functions compute is what `Gpu.Levels` has.
* `levels_ok_iff` — the exact condition for every level of a texture to be within its memory and
  apart from the others.
* `second_level_outside` — a texture of sixteen pixels of one byte whose second level is outside.
-/

namespace PrismaticOS.Gpu

open PrismaticOS.Library

/-! ### The functions -/

/-- `gpu_format_t`. -/
inductive GpuFormat where
  /-- Normalised integers. -/
  | r8Unorm | r8g8Unorm | r8g8b8a8Unorm | b8g8r8a8Unorm
  /-- Floating-point numbers. -/
  | r32Sfloat | r32g32Sfloat | r32g32b32a32Sfloat | d32Sfloat
  /-- A value without a name. -/
  | other
  deriving DecidableEq

/-- `pixel_size` in `gpu_create_texture`. -/
def GpuFormat.pixelSize : GpuFormat → UInt64
  | .r8Unorm => 1
  | .r8g8Unorm => 2
  | .r8g8b8a8Unorm | .b8g8r8a8Unorm => 4
  | .r32Sfloat => 4
  | .r32g32Sfloat => 8
  | .r32g32b32a32Sfloat => 16
  | .d32Sfloat => 4
  | .other => 4

/-- A `gpu_texture_desc_t`. -/
structure GpuTextureDesc where
  /-- `width`. -/
  width : UInt32
  /-- `height`. -/
  height : UInt32
  /-- `depth`. -/
  depth : UInt32
  /-- `mip_levels`. -/
  mipLevels : UInt32
  /-- `format`. -/
  format : GpuFormat
  /-- `usage`. -/
  usage : UInt32

/-- A `struct gpu_texture`. -/
structure GpuTexture where
  /-- `id`. -/
  id : UInt32
  /-- `width`. -/
  width : UInt32
  /-- `height`. -/
  height : UInt32
  /-- `depth`. -/
  depth : UInt32
  /-- `mip_levels`. -/
  mipLevels : UInt32
  /-- `format`. -/
  format : GpuFormat
  /-- `usage`. -/
  usage : UInt32
  /-- `data`. -/
  data : UInt64
  /-- `mapped`. -/
  mapped : Bool

/-- The global state. -/
structure GpuState where
  /-- `next_resource_id`. -/
  nextResourceId : UInt32
  /-- `gpu_initialized`. -/
  gpuInitialized : Bool

/-- `sizeof(gpu_texture_t)`. -/
def textureStructSize : UInt64 := 48

/-- The loop over the mip levels, this many times: `mip_size` and `total_size`. -/
def addMipLevels : ℕ → UInt64 × UInt64 → UInt64 × UInt64
  | 0, s => s
  | k + 1, s => addMipLevels k (s.1 / 2, s.2 + s.1 / 2)

/-- `total_size`. The product of the dimensions has 32 bits. -/
def textureSize (desc : GpuTextureDesc) : UInt64 :=
  let totalSize := (desc.width * desc.height * desc.depth).toUInt64 * desc.format.pixelSize
  if 1 < desc.mipLevels then (addMipLevels (desc.mipLevels.toNat - 1) (totalSize, totalSize)).2
  else totalSize

/-- `gpu_create_texture`, with two calls of `malloc`: the state, and if it does not return NULL
the texture and the size of what its `data` points to. -/
def gpuCreateTexture (malloc₁ malloc₂ : UInt64 → Option UInt64) (st : GpuState)
    (desc : GpuTextureDesc) : GpuState × Option (GpuTexture × UInt64) :=
  if st.gpuInitialized = false then (st, none)
  else
    match malloc₁ textureStructSize with
    | none => (st, none)
    | some _ =>
      ({ st with nextResourceId := st.nextResourceId + 1 },
        (malloc₂ (textureSize desc)).map fun data =>
          ({ id := st.nextResourceId
             width := desc.width
             height := desc.height
             depth := desc.depth
             mipLevels := desc.mipLevels
             format := desc.format
             usage := desc.usage
             data := data
             mapped := false }, textureSize desc))

/-- `offset` in `gpu_map_texture`, after this many levels. -/
def mipOffset (texture : GpuTexture) : ℕ → UInt64
  | 0 => 0
  | i + 1 => mipOffset texture i +
    ((texture.width >>> UInt32.ofNat i) * (texture.height >>> UInt32.ofNat i)).toUInt64 * 4

/-- `gpu_map_texture`, which has no use for its third argument: the pointer and the texture, or
NULL. -/
def gpuMapTexture (texture : GpuTexture) (level _arraySlice : UInt32) :
    Option (UInt64 × GpuTexture) :=
  if texture.mapped = true ∨ texture.mipLevels ≤ level then none
  else some (texture.data + mipOffset texture level.toNat, { texture with mapped := true })

/-- `gpu_unmap_texture`. -/
def gpuUnmapTexture (texture : GpuTexture) : GpuTexture := { texture with mapped := false }

/-! ### What they are for -/

/-- The bytes of a level of a texture, counted from its `data`: they begin where the pointer
points that `gpu_map_texture` returns while the texture is not mapped. -/
def levelRange (texture : GpuTexture) (level : UInt32) : Option Range :=
  (gpuMapTexture (gpuUnmapTexture texture) level 0).map fun r =>
    ⟨(r.1 - texture.data).toNat, levelSize texture.width.toNat texture.height.toNat
      texture.format.pixelSize.toNat level.toNat⟩

/-- Every level is within this much memory, and apart from the other levels. -/
structure LevelsOk (texture : GpuTexture) (size : UInt64) : Prop where
  /-- Every level can be mapped, and is within the memory. -/
  within : ∀ level < texture.mipLevels, ∃ r,
    levelRange texture level = some r ∧ r.Within ⟨0, size.toNat⟩
  /-- Two levels have no byte in common. -/
  apart : ∀ level < texture.mipLevels, ∀ level' < texture.mipLevels, level ≠ level' →
    ∀ r r', levelRange texture level = some r → levelRange texture level' = some r' → r.Apart r'

/-! ### What is computed -/

theorem toNat_shiftRight (x : UInt32) {i : ℕ} (h : i < 32) :
    (x >>> UInt32.ofNat i).toNat = x.toNat / 2 ^ i := by
  have hi : (UInt32.ofNat i).toNat % 32 = i := by
    rw [UInt32.toNat_ofNat']
    omega
  rw [UInt32.toNat_shiftRight, hi, Nat.shiftRight_eq_div_pow]

/-- **Where a level is mapped.** -/
theorem mipOffset_eq (texture : GpuTexture) {i : ℕ} (h : i ≤ 32) :
    (mipOffset texture i).toNat = levelOffset texture.width.toNat texture.height.toNat i := by
  suffices hbound : (mipOffset texture i).toNat =
      levelOffset texture.width.toNat texture.height.toNat i ∧
      (mipOffset texture i).toNat ≤ i * 2 ^ 34 from hbound.1
  induction i with
  | zero => exact ⟨rfl, le_rfl⟩
  | succ i ih =>
    obtain ⟨heq, hle⟩ := ih (by omega)
    have hfour : (4 : UInt64).toNat = 4 := rfl
    have harea := Nat.mod_lt (area texture.width.toNat texture.height.toNat i)
      (Nat.two_pow_pos 32)
    have hterm : (((texture.width >>> UInt32.ofNat i) *
        (texture.height >>> UInt32.ofNat i)).toUInt64 * 4).toNat =
        4 * (area texture.width.toNat texture.height.toNat i % 2 ^ 32) := by
      rw [UInt64.toNat_mul, UInt32.toNat_toUInt64, UInt32.toNat_mul, toNat_shiftRight _ (by omega),
        toNat_shiftRight _ (by omega), ← area, hfour]
      omega
    have hsum : (mipOffset texture (i + 1)).toNat = (mipOffset texture i).toNat +
        4 * (area texture.width.toNat texture.height.toNat i % 2 ^ 32) := by
      rw [mipOffset, UInt64.toNat_add, hterm]
      omega
    refine ⟨?_, by omega⟩
    rw [hsum, heq, levelOffset, levelOffset, Finset.sum_range_succ]

theorem addMipLevels_eq {size : ℕ} (hsize : size < 2 ^ 63) (k j : ℕ) {s : UInt64 × UInt64}
    (hmip : s.1.toNat = size / 2 ^ j) (htotal : s.2.toNat = allocated size (j + 1)) :
    (addMipLevels k s).2.toNat = allocated size (j + 1 + k) := by
  induction k generalizing j s with
  | zero => exact htotal
  | succ k ih =>
    have htwo : (2 : UInt64).toNat = 2 := rfl
    have hhalf : (s.1 / 2).toNat = size / 2 ^ (j + 1) := by
      rw [UInt64.toNat_div, hmip, htwo, Nat.div_div_eq_div_mul, Nat.pow_succ]
    have hadd : (s.2 + s.1 / 2).toNat = allocated size (j + 1 + 1) := by
      have hbound := allocated_bounds size (j + 1)
      have hsum : allocated size (j + 1 + 1) = allocated size (j + 1) + size / 2 ^ (j + 1) :=
        Finset.sum_range_succ _ (j + 1)
      rw [UInt64.toNat_add, hhalf, htotal, ← hsum]
      omega
    rw [addMipLevels, ih (j + 1) hhalf hadd]
    congr 1
    omega

theorem pixelSize_bounds (format : GpuFormat) :
    0 < format.pixelSize.toNat ∧ format.pixelSize.toNat ≤ 16 := by
  cases format <;> decide

/-- **What is allocated.** -/
theorem textureSize_eq (desc : GpuTextureDesc) :
    (textureSize desc).toNat =
      allocated (desc.width.toNat * desc.height.toNat * desc.depth.toNat % 2 ^ 32 *
        desc.format.pixelSize.toNat) (max 1 desc.mipLevels.toNat) := by
  have hpx := (pixelSize_bounds desc.format).2
  have hone : (1 : UInt32).toNat = 1 := rfl
  have hpixels : (desc.width * desc.height * desc.depth).toNat =
      desc.width.toNat * desc.height.toNat * desc.depth.toNat % 2 ^ 32 := by
    rw [UInt32.toNat_mul, UInt32.toNat_mul, Nat.mod_mul_mod]
  have hlt := Nat.mod_lt (desc.width.toNat * desc.height.toNat * desc.depth.toNat)
    (Nat.two_pow_pos 32)
  have hsmall : desc.width.toNat * desc.height.toNat * desc.depth.toNat % 2 ^ 32 *
      desc.format.pixelSize.toNat < 2 ^ 63 :=
    calc _ ≤ 2 ^ 32 * 16 := Nat.mul_le_mul hlt.le hpx
      _ < 2 ^ 63 := by decide
  have hsize : ((desc.width * desc.height * desc.depth).toUInt64 * desc.format.pixelSize).toNat =
      desc.width.toNat * desc.height.toNat * desc.depth.toNat % 2 ^ 32 *
        desc.format.pixelSize.toNat := by
    rw [UInt64.toNat_mul, UInt32.toNat_toUInt64, hpixels]
    exact Nat.mod_eq_of_lt (by omega)
  rw [textureSize]
  split_ifs with hlevels
  · rw [UInt32.lt_iff_toNat_lt, hone] at hlevels
    rw [addMipLevels_eq hsmall _ 0 (by rw [hsize, pow_zero, Nat.div_one])
      (hsize.trans (allocated_one _).symm)]
    congr 1
    omega
  · rw [UInt32.lt_iff_toNat_lt, hone] at hlevels
    rw [max_eq_left (Nat.not_lt.mp hlevels), allocated_one, hsize]

/-- The level of a texture as a range. -/
theorem levelRange_eq (texture : GpuTexture) {level : UInt32} (h : level < texture.mipLevels)
    (hlevel : level.toNat ≤ 32) :
    levelRange texture level = some
      ⟨levelOffset texture.width.toNat texture.height.toNat level.toNat,
        levelSize texture.width.toNat texture.height.toNat texture.format.pixelSize.toNat
          level.toNat⟩ := by
  have hmap : gpuMapTexture (gpuUnmapTexture texture) level 0 = some
      (texture.data + mipOffset (gpuUnmapTexture texture) level.toNat,
        { texture with mapped := true }) := by
    rw [gpuMapTexture, if_neg]
    · rfl
    · rintro (hmapped | hle)
      · cases hmapped
      · exact absurd h (UInt32.not_lt.mpr hle)
  have hcancel : texture.data + mipOffset (gpuUnmapTexture texture) level.toNat - texture.data =
      mipOffset (gpuUnmapTexture texture) level.toNat := by
    rw [UInt64.add_comm, UInt64.add_sub_cancel]
  rw [levelRange, hmap, Option.map_some, hcancel, mipOffset_eq _ hlevel]
  rfl

/-- What a new texture is like. -/
theorem created {malloc₁ malloc₂ : UInt64 → Option UInt64} {st st' : GpuState}
    {desc : GpuTextureDesc} {texture : GpuTexture} {size : UInt64}
    (hcreate : gpuCreateTexture malloc₁ malloc₂ st desc = (st', some (texture, size))) :
    texture.width = desc.width ∧ texture.height = desc.height ∧
      texture.mipLevels = desc.mipLevels ∧ texture.format = desc.format ∧
      size = textureSize desc := by
  rw [gpuCreateTexture] at hcreate
  split_ifs at hcreate
  · cases (Prod.mk.inj hcreate).2
  · split at hcreate
    · cases (Prod.mk.inj hcreate).2
    · obtain ⟨data, -, heq⟩ := Option.map_eq_some_iff.mp (Prod.mk.inj hcreate).2
      cases heq
      exact ⟨rfl, rfl, rfl, rfl, rfl⟩

/-- Levels that are where they should be fit. -/
theorem LevelsOk.levelsFit {texture : GpuTexture} {size : UInt64} {d : ℕ}
    (h : LevelsOk texture size)
    (hsize : 0 < texture.mipLevels.toNat → size.toNat =
      allocated (texture.width.toNat * texture.height.toNat * d % 2 ^ 32 *
        texture.format.pixelSize.toNat) texture.mipLevels.toNat) :
    LevelsFit texture.width.toNat texture.height.toNat d texture.format.pixelSize.toNat
      texture.mipLevels.toNat := by
  have hlevel {i : ℕ} (hi : i < texture.mipLevels.toNat) : (UInt32.ofNat i).toNat = i :=
    UInt32.toNat_ofNat_of_lt' (hi.trans texture.mipLevels.toNat_lt)
  have hlt {i : ℕ} (hi : i < texture.mipLevels.toNat) : UInt32.ofNat i < texture.mipLevels := by
    rwa [UInt32.lt_iff_toNat_lt, hlevel hi]
  have hrange {i : ℕ} (hi : i < texture.mipLevels.toNat) (hle : i ≤ 32) :
      levelRange texture (UInt32.ofNat i) = some
        ⟨levelOffset texture.width.toNat texture.height.toNat i,
          levelSize texture.width.toNat texture.height.toNat
            texture.format.pixelSize.toNat i⟩ := by
    have heq := levelRange_eq texture (hlt hi) (by rwa [hlevel hi])
    rwa [hlevel hi] at heq
  refine levelsFit_of_fits texture.width.toNat_lt texture.height.toNat_lt
    (pixelSize_bounds texture.format).1 (fun i hi hle => ?_) fun i hi hle => ?_
  · have hne : UInt32.ofNat i ≠ UInt32.ofNat (i + 1) := fun heq => by
      have := congrArg UInt32.toNat heq
      rw [hlevel (Nat.lt_of_succ_lt hi), hlevel hi] at this
      omega
    have happart := h.apart _ (hlt (Nat.lt_of_succ_lt hi)) _ (hlt hi) hne _ _
      (hrange (Nat.lt_of_succ_lt hi) (by omega)) (hrange hi (by omega))
    have hnext : levelOffset texture.width.toNat texture.height.toNat (i + 1) =
        levelOffset texture.width.toNat texture.height.toNat i +
          4 * (area texture.width.toNat texture.height.toNat i % 2 ^ 32) :=
      Finset.sum_range_succ _ i
    have hpos := px_le_levelSize texture.width.toNat texture.height.toNat
      texture.format.pixelSize.toNat (i + 1)
    have hpx := (pixelSize_bounds texture.format).1
    simp only [Range.Apart, Range.stop, hnext] at happart
    omega
  · obtain ⟨r, hr, -, hstop⟩ := h.within _ (hlt hi)
    rw [hrange hi hle, Option.some_inj] at hr
    subst hr
    rwa [Range.stop, Range.stop, Nat.zero_add, hsize (Nat.zero_lt_of_lt hi)] at hstop

/-- Levels that fit are where they should be. -/
theorem LevelsFit.levelsOk {texture : GpuTexture} {size : UInt64} {d : ℕ}
    (h : LevelsFit texture.width.toNat texture.height.toNat d texture.format.pixelSize.toNat
      texture.mipLevels.toNat)
    (hsize : 0 < texture.mipLevels.toNat → size.toNat =
      allocated (texture.width.toNat * texture.height.toNat * d % 2 ^ 32 *
        texture.format.pixelSize.toNat) texture.mipLevels.toNat) :
    LevelsOk texture size := by
  have hle := h.levels_le texture.width.toNat_lt
  have hlevel {level : UInt32} (hlt : level < texture.mipLevels) :
      level.toNat < texture.mipLevels.toNat := UInt32.lt_iff_toNat_lt.mp hlt
  have hrange {level : UInt32} (hlt : level < texture.mipLevels) :=
    levelRange_eq texture hlt (by have := hlevel hlt; omega)
  constructor
  · intro level hlt
    refine ⟨_, hrange hlt, Nat.zero_le _, ?_⟩
    rw [Range.stop, Range.stop, Nat.zero_add, hsize (Nat.zero_lt_of_lt (hlevel hlt))]
    exact h.le_allocated (hlevel hlt)
  · intro level hlt level' hlt' hne r r' hr hr'
    rw [hrange hlt, Option.some_inj] at hr
    rw [hrange hlt', Option.some_inj] at hr'
    subst hr hr'
    rcases Nat.lt_or_gt_of_ne fun heq => hne (UInt32.toNat_inj.mp heq) with hbefore | hafter
    · exact Or.inl (h.before hbefore (hlevel hlt'))
    · exact Or.inr (h.before hafter (hlevel hlt))

/-- **The levels of a texture** are within its memory and apart exactly if they fit. -/
theorem levels_ok_iff (malloc₁ malloc₂ : UInt64 → Option UInt64) (st st' : GpuState)
    (desc : GpuTextureDesc) (texture : GpuTexture) (size : UInt64)
    (hcreate : gpuCreateTexture malloc₁ malloc₂ st desc = (st', some (texture, size))) :
    LevelsOk texture size ↔
      LevelsFit desc.width.toNat desc.height.toNat desc.depth.toNat
        desc.format.pixelSize.toNat desc.mipLevels.toNat := by
  obtain ⟨hwidth, hheight, hlevels, hformat, rfl⟩ := created hcreate
  have hsize : 0 < desc.mipLevels.toNat → (textureSize desc).toNat =
      allocated (desc.width.toNat * desc.height.toNat * desc.depth.toNat % 2 ^ 32 *
        desc.format.pixelSize.toNat) desc.mipLevels.toNat := by
    intro hpos
    rw [textureSize_eq, max_eq_right hpos]
  rw [← hwidth, ← hheight, ← hlevels, ← hformat] at *
  exact ⟨fun h => h.levelsFit hsize, fun h => h.levelsOk hsize⟩

/-- Three levels of four by four pixels of four bytes. -/
theorem levels_ok_square :
    LevelsOk ⟨1, 4, 4, 1, 3, .r8g8b8a8Unorm, 0, 0x2000, false⟩ 112 :=
  (levels_ok_iff (fun _ => some 0x1000) (fun _ => some 0x2000) ⟨1, true⟩ ⟨2, true⟩
    ⟨4, 4, 1, 3, .r8g8b8a8Unorm, 0⟩ _ _ rfl).mpr (by decide)

/-- **The second level is outside**: with four by four pixels of one byte it is put at byte 64 of
24. -/
theorem second_level_outside :
    ∃ texture size st', gpuCreateTexture (fun _ => some 0x1000) (fun _ => some 0x2000) ⟨1, true⟩
        ⟨4, 4, 1, 2, .r8Unorm, 0⟩ = (st', some (texture, size)) ∧ ¬ LevelsOk texture size := by
  refine ⟨_, _, _, rfl, fun h => ?_⟩
  obtain ⟨r, hr, -, hstop⟩ := h.within 1 (by decide)
  have hrange : r = ⟨64, 4⟩ := (Option.some.inj hr).symm
  rw [hrange] at hstop
  exact absurd hstop (by decide)

end PrismaticOS.Gpu
