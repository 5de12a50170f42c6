import Uffs.Ecc.Chunk
import Uffs.Ecc.Layout
import Uffs.Model.Spare

/-
  The spare bytes of the automatic layout with ECC: what is
  proved of all layouts, for the geometries that
  `uffs_FlashInterfaceInit` accepts.

  Main declarations:
    * `Geometry.Accepted.fits`
    * `unloadTag_makeSpare`, `unloadEcc_makeSpare`
    * `sealByte_makeSpare`
-/

namespace Uffs

------------------------------------------------------------
-- The Automatic Layout
------------------------------------------------------------

namespace Geometry

variable {g : Geometry}

theorem Accepted.eccSize_le
    (h : g.Accepted) : g.eccSize ≤ 24 := by
  have hPage := h.page
  unfold maxPageSize at hPage
  unfold eccSize
  omega

/- The automatic ECC size fits into a spare. -/
theorem Accepted.fits (h : g.Accepted) : g.attr.Fits := by
  have hEcc := h.eccSize_le
  unfold SpareAttr.Fits attr tagStoreSize
  dsimp only
  omega

end Geometry

------------------------------------------------------------
-- Packing and Unpacking
------------------------------------------------------------

section Packing

variable {g : Geometry} {ts ecc : List Byte}

theorem makeSpare_length
    (h : g.Accepted)
    (hTs : ts.length = 8)
    (hEcc : ecc.length = g.eccSize) :
    (makeSpare g ts ecc).length = g.spareDataSize :=
  h.fits.makeSpare_length hTs hEcc

theorem unloadTag_makeSpare
    (h : g.Accepted)
    (hTs : ts.length = 8)
    (hEcc : ecc.length = g.eccSize) :
    unloadTag g (makeSpare g ts ecc) = ts :=
  h.fits.unloadTag_makeSpare hTs hEcc

theorem unloadEcc_makeSpare
    (h : g.Accepted)
    (hTs : ts.length = 8)
    (hEcc : ecc.length = g.eccSize) :
    unloadEcc g (makeSpare g ts ecc) = ecc :=
  h.fits.unloadEcc_makeSpare hTs hEcc

/- The seal byte of a written page is programmed. -/
theorem sealByte_makeSpare
    (h : g.Accepted)
    (hTs : ts.length = 8)
    (hEcc : ecc.length = g.eccSize) :
    sealByte g (makeSpare g ts ecc) = 0 := by
  have hSeal : (makeSpare g ts ecc)[g.attr.sealOffs]? = some 0 :=
    (h.fits.restores hTs hEcc).sealed
  unfold sealByte
  rw [List.getD_eq_getElem?_getD, hSeal]
  rfl

end Packing

end Uffs
