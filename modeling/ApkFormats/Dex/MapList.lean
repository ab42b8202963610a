import ApkFormats.Decoder

/-!
# Maps of DEX files

The map lists the sections of a file by type, number of items and offset.
Types that are not known keep their number.
-/

namespace ApkFormats.Dex

/-- Names of the known types of sections, by number. -/
def sectionNames : List (Nat × String) :=
  [(0, "header_item"), (1, "string_id_item"), (2, "type_id_item"), (3, "proto_id_item"),
    (4, "field_id_item"), (5, "method_id_item"), (6, "class_def_item"), (7, "call_site_id_item"),
    (8, "method_handle_item"), (4096, "map_list"), (4097, "type_list"),
    (4098, "annotation_set_ref_list"), (4099, "annotation_set_item"), (8192, "class_data_item"),
    (8193, "code_item"), (8194, "string_data_item"), (8195, "debug_info_item"),
    (8196, "annotation_item"), (8197, "encoded_array_item"), (8198, "annotations_directory_item"),
    (61440, "hiddenapi_class_data_item")]

structure MapItem where
  type : Nat
  unused : Nat
  size : Nat
  /-- Offset of the first item. -/
  offset : Nat
  deriving DecidableEq, Repr

namespace MapItem

/-- Name of the type of a section, when it is known. -/
def typeName? (item : MapItem) : Option String :=
  sectionNames.lookup item.type

def stride : Nat := 12

def read : Decoder MapItem := do
  let type ← Decoder.u16
  let unused ← Decoder.u16
  let size ← Decoder.u32
  let offset ← Decoder.u32
  pure ⟨type, unused, size, offset⟩

def readAll : Decoder (List MapItem) := do
  let count ← Decoder.u32
  let cursor ← Decoder.position
  let bufferSize ← Decoder.bufferSize
  Decoder.require (cursor + count * stride ≤ bufferSize) (.dex (.mapSize count cursor))
  Decoder.times read count

end MapItem

end ApkFormats.Dex
