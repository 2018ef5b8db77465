import Brandy.Library.Text

/-!
# The Items of a Boot Package

How `load_image` from `nboot/main/load_image.c` and `load_comp_image` from
`nboot/main/load_comp_image.c` find out from its name what an item of a boot package is. Of what a
branch does, only the write to `*uboot_base` and the result are modelled, and images do not
overwrite the package.

## Main definitions

* `Item`, `branches`: What a branch is for, and the branches with their comparisons.
* `loadImage`, `loadCompImage`, `loadImageRet`: The loaders and the result.
-/

namespace Brandy.LoadImage

open Text

inductive Comp
  | gz | lz4 | lzma
  deriving DecidableEq

/-- The items with a branch of their own. -/
inductive Item
  | uboot (comp : Option Comp) | optee | monitor | scp | dtb (comp : Option Comp) | dtbo | logo
  | opensbi (comp : Option Comp) | rtos (comp : Option Comp) | melis (comp : Option Comp)
  | melisConfig | melisElf | videoData | ispPara

def Item.comp : Item → Option Comp
  | uboot c | dtb c | opensbi c | rtos c | melis c => c
  | _ => none

/-- The names from `private_toc.h`. -/
def Item.name (item : Item) : List UInt8 :=
  ascii (match item with
    | uboot _ => "u-boot" | optee => "optee" | monitor => "monitor" | scp => "scp" | dtb _ => "dtb"
    | dtbo => "dtbo" | logo => "logo" | opensbi _ => "opensbi" | rtos _ => "rtos"
    | melis _ => "melis"
    | melisConfig => "melis-config" | melisElf => "melis-elf" | videoData => "video"
    | ispPara => "isp-parameter") ++
  ascii (match item.comp with
    | none => "" | some .gz => "-gz" | some .lz4 => "-lz4" | some .lzma => "-lzma")

/-- `strncmp` of two strings, without the NUL that ends them. -/
def strncmp (cs ct : List UInt8) : Nat → UInt8
  | 0 => 0
  | n + 1 =>
    if cs.headD 0 - ct.headD 0 ≠ 0 ∨ cs.headD 0 = 0 then cs.headD 0 - ct.headD 0
    else strncmp cs.tail ct.tail n

/-- What the number of bytes to compare is: `strlen` or `sizeof`, of the name in the package or of
    the item name. -/
inductive Bound
  | strlenName | strlenItem | sizeofItem | sizeofName

def Bound.count (item name : List UInt8) : Bound → Nat
  | strlenName => name.length
  | strlenItem => item.length
  | sizeofItem => item.length + 1
  | sizeofName => 64

/-- The switches of a build that decide about branches. -/
structure Build where
  has : Comp → Bool
  riscv : Bool
  videoBin : Bool
  ispparam : Bool

/-- The branches of `load_image` in their order. -/
def branches (b : Build) : List (Item × Bound) := List.flatten [
  [none, some .gz, some .lz4, some .lzma].map (.uboot ·, .strlenName),
  [(.optee, .sizeofItem), (.monitor, .sizeofItem), (.scp, .sizeofItem), (.dtb none, .sizeofName)],
  [some .lzma, some .lz4, some .gz].map (.dtb ·, .strlenItem),
  [(.dtbo, .sizeofItem), (.logo, .sizeofItem)],
  [none, some .gz, some .lz4, some .lzma].map (.opensbi ·, .sizeofName),
  [(.rtos none, .sizeofItem), (.melis none, .sizeofItem), (.melisConfig, .sizeofItem)],
  if b.riscv then [(.melisElf, .sizeofItem)] else [],
  if b.videoBin then [(.videoData, .sizeofItem)] else [],
  if b.ispparam then [(.ispPara, .sizeofItem)] else [],
  [some .gz, some .lz4, some .lzma].flatMap fun c =>
  [(.melis c, .sizeofItem), (.rtos c, .sizeofItem)]]

/-- The branches of `load_comp_image`: those for compressed items, in the same order and with the
    same comparisons, where the build has the decompressor. -/
def compBranches (b : Build) : List (Item × Bound) :=
  (branches b).filter fun x => x.1.comp.any b.has

/-- The item of the first branch whose comparison gives 0. -/
def taken (name : List UInt8) (branches : List (Item × Bound)) : Option Item :=
  (branches.find? fun x => strncmp name x.1.name (x.2.count x.1.name name) = 0).map Prod.fst

/-- What an item with this name is taken for. -/
def treatedAs (b : Build) (name : List UInt8) : Option Item :=
  (taken name (branches b)).bind fun item =>
    if item.comp = none then some item else taken name (compBranches b)

/-- An entry of the package, with the run address in its image and in the decompressed image, if
    there is one. -/
structure TocItem where
  type : Nat
  name : CString
  short : name.bytes.length < 64
  runAddr : Nat
  decompressed : Option Nat

/-- What an entry was taken for, and what was written to `*uboot_base`. -/
structure Handled where
  entry : TocItem
  as : Option Item
  ubootBase : Option Nat

def loadItem (b : Build) (t : TocItem) : Handled :=
  let as := if t.type ≠ 3 then none else treatedAs b t.name.bytes
  ⟨t, as, match as with
    | some (.uboot none) => some t.runAddr
    | some (.uboot (some _)) => t.decompressed
    | _ => none⟩

def loadImage (b : Build) (items : List TocItem) : List Handled := items.map (loadItem b)

/-- Whether there is memory for a temporary buffer, and what the decompressor returns. -/
structure Outcome where
  buffer : Bool
  ret : Int

/-- The images that are decompressed to a temporary buffer. -/
def Item.buffered : Item → Bool
  | uboot _ | opensbi _ => true
  | _ => false

/-- What `load_comp_image` returns. -/
def loadCompImage (b : Build) (t : TocItem) (o : Outcome) : Int :=
  match taken t.name.bytes (compBranches b) with
  | none => -1
  | some item => if item.buffered ∧ o.buffer = false then -1 else if o.ret ≠ 0 then -1 else 0

/-- The branch for this entry calls `load_comp_image`. -/
def compressed (b : Build) (t : TocItem) : Bool :=
  (taken t.name.bytes (branches b)).any (·.comp.isSome)

/-- For each entry, whether its turn ends with the message that `load_comp_image` has failed.
    `load_comp_image_ret` is set once before the loop. -/
def messages (b : Build) (loadCompImageRet : Int) : List (TocItem × Outcome) → List Bool
  | [] => []
  | (t, o) :: items =>
    if t.type ≠ 3 then false :: messages b loadCompImageRet items
    else
      let ret := if compressed b t then loadCompImage b t o else loadCompImageRet
      (ret ≠ 0) :: messages b ret items

/-- What `load_image` returns, with the messages. -/
def loadImageRet (b : Build) (items : List (TocItem × Outcome)) : Int × List Bool :=
  (0, messages b 0 items)

end Brandy.LoadImage
