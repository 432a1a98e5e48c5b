import CellMachine.ErrorMode

/-!
# Native opcodes

The opcodes that every machine knows, by what they do. Opcode numbers that are not in the table
belong to extensions.

In the comments `a0`, `a1`, … are the literal arguments, `M[n]` is the cell whose address is `an`,
and `T(n)` and `L(n)` are the jump targets that `M[n]` and the label `an` give.
-/

namespace CellMachine

/-! ## Families -/

inductive UintOp where
  | add | sub | mul | div | pow | mod | and | or | xor | shiftLeft | shiftRight
  deriving DecidableEq

inductive SintOp where
  | add | sub | mul | div | pow | and | or | xor
  deriving DecidableEq

/-- Operations on floats; the last three act on the bit patterns. -/
inductive FloatOp where
  | add | sub | mul | div | pow | mod | and | or | xor
  deriving DecidableEq

inductive BigOp where
  | add | sub
  deriving DecidableEq

inductive Conversion where
  | uintToText | floatToText | sintToText
  | textToUint | textToFloat | textToSint
  | uintToFloat | sintToFloat | floatToUint | floatToSint
  | sintToUint | uintToSint
  deriving DecidableEq

inductive Comparison where
  | gt | lt | ge | le | eq
  deriving DecidableEq

inductive Condition where
  | always  -- nothing
  | same  -- the cells hold the same bytes
  | differ  -- the cells differ
  | float (c : Comparison)  -- the cells compare as floats
  | uint (c : Comparison)  -- the cells compare as unsigned numbers
  | within  -- the first cell occurs in the second
  deriving DecidableEq

/-- Instructions that compute one value from cells and literals and store it in one cell. -/
inductive DataOp where
  | store  -- `a1 ← a0`, as a literal
  | copy  -- `a1 ← M[0]`
  | concat  -- `a2 ← M[1]` followed by `M[0]`
  | insert  -- `a1 ← M[1]` with `M[0]` put in at `M[2]`
  | keepFront  -- `a0 ←` the first `M[1]` bytes of `M[0]`
  | dropFront  -- `a0 ← M[0]` without its first `M[1]` bytes
  | removeRange  -- `a0 ← M[0]` without `M[1]` bytes at `M[2]`
  | length  -- `a1 ←` the length of `M[0]`
  | not  -- `a1 ←` one if `M[0]` is zero, else zero
  | slice  -- `a3 ← M[2]` from `M[0]` up to `M[1]`
  | replicate  -- `a0 ← M[0]`, `M[1]` times
  | snapshot  -- `a0 ←` every cell of the namespace
  | loadIndirect  -- `a1 ←` the cell whose address is in `M[0]`
  | storeIndirect  -- the cell whose address is in `M[0]` `← M[1]`
  | listAddresses  -- `a0 ←` the addresses of the namespace
  | reverse  -- `a1 ← M[0]` backwards
  | compare  -- `a2 ←` how `M[0]` and `M[1]` compare as byte strings
  | uint (op : UintOp)  -- `a2 ← M[0]` and `M[1]` combined as unsigned words
  | sint (op : SintOp)  -- `a2 ← M[0]` and `M[1]` combined as signed integers
  | float (op : FloatOp)  -- `a2 ← M[0]` and `M[1]` combined as floats
  | big (op : BigOp)  -- `a2 ← M[0]` and `M[1]` combined as numbers of any size
  | convert (c : Conversion)  -- `a1 ← M[0]` converted
  deriving DecidableEq

/-- What a native opcode does. -/
inductive Opcode where
  | start | nop | label  -- nothing: a marker for the start, for a place or for a position
  | halt  -- halt; with an argument, append `M[0]` to the output first
  | stopAll  -- halt every thread
  | data (op : DataOp)  -- compute a value and store it
  | delete  -- delete the cell `a0`
  | clearMemory  -- delete every cell
  | restore  -- put the cells of the snapshot `M[0]` in place of the present ones
  | jump (c : Condition)  -- go to `T(0)` if the condition holds
  | branch (c : Condition)  -- go to `T(0)` if the condition holds and to `T(3)` if not
  | jumpLabel (c : Condition)  -- go to `L(0)` if the condition holds
  | branchLabel (c : Condition)  -- go to `L(0)` if the condition holds and to `L(3)` if not
  | setErrorMode (m : ErrorMode)  -- set the error mode
  | readLine  -- `a0 ←` a line of input
  | readChars  -- `a1 ← M[0]` characters of input
  | runtimeArg  -- `a1 ←` the runtime argument number `M[0]`
  | runtimeArgCount  -- `a0 ←` how many runtime arguments there are
  | dumpMemory  -- print the namespace
  | write  -- append `M[0]` to the output, unless `a2` is 1, and print it in the form `a1`
  | readFile  -- `a1 ←` the file named `M[0]`
  | writeFile  -- the file named `M[0]` `← M[1]`
  | deleteFile  -- delete the file named `M[0]`
  | listFiles  -- `a0 ←` the names of the files
  | runCommand  -- `a1 ←` the exit status of the host command `M[0]`
  | dumpProgram  -- `a0 ←` the executing program
  | loadProgram  -- execute the program `M[0]` from position `M[1]` on instead of the present one
  | getOutput  -- `a0 ←` the output so far
  | setOutput  -- the output `← M[0]`
  | epochTime  -- `a0 ←` the seconds since the epoch, as a float
  | localTime  -- `a0 ←` the local time, as text
  | sleep  -- wait `M[0]` seconds, a float
  | useBundleFiles | usePrimaryFiles  -- use the bundle's files, or the primary ones
  | switchNamespace  -- make the namespace `M[0]` the active one
  | createNamespace  -- create the namespace `M[0]`, empty
  | deleteNamespace  -- delete the namespace `M[0]`
  | listNamespaces  -- `a0 ←` the ids of the namespaces
  | pruneNamespaces  -- delete every namespace but the active one
  | copyToNamespace  -- the cell `a1` of the namespace `M[2]` `← M[0]`
  -- Run the instructions from one position up to another on a thread of their own; the positions
  -- are `M[0]` and `M[1]`, or the labels `a0` and `a1`. A joined thread is waited for.
  | spawn (byLabel join : Bool)
  | importModule  -- run the program file `M[0]` in the namespace `M[1]`
  | runSource  -- compile the source `M[0]` and run it
  | compileSource  -- `a1 ←` the source `M[0]`, compiled
  | runBinary  -- run the binary program `M[0]`
  | bindExtension  -- bind the extension named `M[0]` to the active namespace
  | unbindExtension  -- bind no extension to the active namespace
  deriving DecidableEq

/-! ## The table -/

structure OpcodeEntry where
  code : Nat
  op : Opcode
  mnemonic : String

namespace Opcode

def table : List OpcodeEntry := [
  ⟨0, .start, "start"⟩,
  ⟨1, .halt, "halt"⟩,
  ⟨2, .data .store, "store"⟩,
  ⟨3, .data .copy, "copy"⟩,
  ⟨4, .data .concat, "concat"⟩,
  ⟨5, .data .insert, "insert"⟩,
  ⟨6, .data .keepFront, "keep_front"⟩,
  ⟨7, .data .dropFront, "drop_front"⟩,
  ⟨8, .data .removeRange, "remove_range"⟩,
  ⟨9, .data .length, "length"⟩,
  ⟨10, .data (.float .add), "float_add"⟩,
  ⟨11, .data (.float .sub), "float_sub"⟩,
  ⟨12, .data (.float .mul), "float_mul"⟩,
  ⟨13, .data (.float .div), "float_div"⟩,
  ⟨14, .data (.float .pow), "float_pow"⟩,
  ⟨15, .data (.float .and), "float_and"⟩,
  ⟨16, .data (.float .or), "float_or"⟩,
  ⟨17, .data (.float .xor), "float_xor"⟩,
  ⟨18, .data .not, "not"⟩,
  ⟨19, .delete, "delete"⟩,
  ⟨20, .jump .always, "jump"⟩,
  ⟨21, .jump .same, "jump_eq"⟩,
  ⟨22, .jump (.float .gt), "jump_float_gt"⟩,
  ⟨23, .jump (.float .lt), "jump_float_lt"⟩,
  ⟨24, .jump (.float .ge), "jump_float_ge"⟩,
  ⟨25, .jump (.float .le), "jump_float_le"⟩,
  ⟨26, .data .slice, "slice"⟩,
  ⟨27, .readLine, "read_line"⟩,
  ⟨28, .runtimeArg, "runtime_arg"⟩,
  ⟨29, .dumpMemory, "dump_memory"⟩,
  ⟨30, .write, "write"⟩,
  ⟨31, .data (.uint .add), "uint_add"⟩,
  ⟨32, .data (.uint .sub), "uint_sub"⟩,
  ⟨33, .data (.uint .mul), "uint_mul"⟩,
  ⟨34, .data (.uint .div), "uint_div"⟩,
  ⟨35, .data (.uint .pow), "uint_pow"⟩,
  ⟨36, .data (.uint .and), "uint_and"⟩,
  ⟨37, .data (.uint .or), "uint_or"⟩,
  ⟨38, .data (.uint .xor), "uint_xor"⟩,
  ⟨39, .data (.convert .uintToText), "uint_to_string"⟩,
  ⟨40, .data (.convert .floatToText), "float_to_string"⟩,
  ⟨41, .data (.convert .textToUint), "string_to_uint"⟩,
  ⟨42, .data (.convert .textToFloat), "string_to_float"⟩,
  ⟨43, .data (.convert .uintToFloat), "uint_to_float"⟩,
  ⟨44, .data (.convert .floatToUint), "float_to_uint"⟩,
  ⟨45, .data .replicate, "repeat"⟩,
  ⟨46, .readFile, "read_file"⟩,
  ⟨47, .writeFile, "write_file"⟩,
  ⟨48, .deleteFile, "delete_file"⟩,
  ⟨49, .dumpProgram, "dump_program"⟩,
  ⟨50, .loadProgram, "load_program"⟩,
  ⟨51, .getOutput, "get_output"⟩,
  ⟨52, .setOutput, "set_output"⟩,
  ⟨53, .data .snapshot, "snapshot"⟩,
  ⟨54, .restore, "restore"⟩,
  ⟨55, .runCommand, "run_command"⟩,
  ⟨56, .readChars, "read_chars"⟩,
  ⟨57, .listFiles, "list_files"⟩,
  ⟨58, .nop, "nop"⟩,
  ⟨59, .epochTime, "epoch_time"⟩,
  ⟨60, .localTime, "local_time"⟩,
  ⟨61, .sleep, "sleep"⟩,
  ⟨62, .data .loadIndirect, "load_indirect"⟩,
  ⟨63, .data .storeIndirect, "store_indirect"⟩,
  ⟨64, .branch .same, "branch_eq"⟩,
  ⟨65, .branch (.float .gt), "branch_float_gt"⟩,
  ⟨66, .branch (.float .lt), "branch_float_lt"⟩,
  ⟨67, .branch (.float .ge), "branch_float_ge"⟩,
  ⟨68, .branch (.float .le), "branch_float_le"⟩,
  ⟨69, .data (.float .mod), "float_mod"⟩,
  ⟨70, .data (.uint .mod), "uint_mod"⟩,
  ⟨71, .branch (.float .eq), "branch_float_eq"⟩,
  ⟨72, .jump (.float .eq), "jump_float_eq"⟩,
  ⟨83, .data .listAddresses, "list_addresses"⟩,
  ⟨84, .clearMemory, "clear_memory"⟩,
  ⟨85, .data (.uint .shiftLeft), "shift_left"⟩,
  ⟨86, .data (.uint .shiftRight), "shift_right"⟩,
  ⟨87, .data .reverse, "reverse"⟩,
  ⟨88, .spawn false false, "spawn"⟩,
  ⟨89, .spawn false true, "spawn_join"⟩,
  ⟨90, .switchNamespace, "switch_namespace"⟩,
  ⟨91, .createNamespace, "create_namespace"⟩,
  ⟨92, .deleteNamespace, "delete_namespace"⟩,
  ⟨93, .listNamespaces, "list_namespaces"⟩,
  ⟨94, .pruneNamespaces, "prune_namespaces"⟩,
  ⟨95, .copyToNamespace, "copy_to_namespace"⟩,
  ⟨96, .importModule, "import"⟩,
  ⟨98, .branch .within, "branch_contains"⟩,
  ⟨109, .runSource, "run_source"⟩,
  ⟨110, .compileSource, "compile_source"⟩,
  ⟨111, .runBinary, "run_binary"⟩,
  ⟨112, .setErrorMode .displayStop, "error_display_stop"⟩,
  ⟨113, .setErrorMode .display, "error_display"⟩,
  ⟨114, .setErrorMode .stop, "error_stop"⟩,
  ⟨115, .setErrorMode .none, "error_none"⟩,
  ⟨116, .data .compare, "compare"⟩,
  ⟨118, .bindExtension, "bind_extension"⟩,
  ⟨119, .unbindExtension, "unbind_extension"⟩,
  ⟨120, .useBundleFiles, "use_bundle_files"⟩,
  ⟨121, .usePrimaryFiles, "use_primary_files"⟩,
  ⟨122, .runtimeArgCount, "runtime_arg_count"⟩,
  ⟨123, .data (.big .add), "big_add"⟩,
  ⟨124, .data (.big .sub), "big_sub"⟩,
  ⟨125, .label, "label"⟩,
  ⟨126, .jumpLabel .always, "jump_label"⟩,
  ⟨127, .jumpLabel .same, "jump_label_eq"⟩,
  ⟨128, .jumpLabel .differ, "jump_label_ne"⟩,
  ⟨129, .jumpLabel (.float .gt), "jump_label_float_gt"⟩,
  ⟨130, .jumpLabel (.float .lt), "jump_label_float_lt"⟩,
  ⟨131, .jumpLabel (.float .ge), "jump_label_float_ge"⟩,
  ⟨132, .jumpLabel (.float .le), "jump_label_float_le"⟩,
  ⟨133, .branchLabel .same, "branch_label_eq"⟩,
  ⟨134, .branchLabel (.float .gt), "branch_label_float_gt"⟩,
  ⟨135, .branchLabel (.float .lt), "branch_label_float_lt"⟩,
  ⟨136, .branchLabel (.float .ge), "branch_label_float_ge"⟩,
  ⟨137, .branchLabel (.float .le), "branch_label_float_le"⟩,
  ⟨138, .branchLabel (.uint .gt), "branch_label_uint_gt"⟩,
  ⟨139, .branchLabel (.uint .lt), "branch_label_uint_lt"⟩,
  ⟨140, .branchLabel (.uint .ge), "branch_label_uint_ge"⟩,
  ⟨141, .branchLabel (.uint .le), "branch_label_uint_le"⟩,
  ⟨142, .branchLabel .differ, "branch_label_ne"⟩,
  ⟨143, .spawn true false, "spawn_label"⟩,
  ⟨144, .spawn true true, "spawn_label_join"⟩,
  ⟨145, .data (.sint .add), "sint_add"⟩,
  ⟨146, .data (.sint .sub), "sint_sub"⟩,
  ⟨147, .data (.sint .mul), "sint_mul"⟩,
  ⟨148, .data (.sint .div), "sint_div"⟩,
  ⟨149, .data (.sint .pow), "sint_pow"⟩,
  ⟨150, .data (.sint .and), "sint_and"⟩,
  ⟨151, .data (.sint .or), "sint_or"⟩,
  ⟨152, .data (.sint .xor), "sint_xor"⟩,
  ⟨153, .data (.convert .sintToText), "sint_to_string"⟩,
  ⟨154, .data (.convert .sintToFloat), "sint_to_float"⟩,
  ⟨155, .data (.convert .sintToUint), "sint_to_uint"⟩,
  ⟨156, .data (.convert .textToSint), "string_to_sint"⟩,
  ⟨157, .data (.convert .floatToSint), "float_to_sint"⟩,
  ⟨158, .data (.convert .uintToSint), "uint_to_sint"⟩,
  ⟨159, .stopAll, "stop_all"⟩]

def row? (code : UInt32) : Option OpcodeEntry :=
  table.find? fun e => e.code == code.toNat

def ofCode? (code : UInt32) : Option Opcode := (row? code).map (·.op)

def mnemonic? (code : UInt32) : Option String := (row? code).map (·.mnemonic)

/-- Whether a native opcode number belongs to the family that names positions by labels. -/
def usesLabels? (code : UInt32) : Option Bool :=
  (row? code).map fun e => 125 ≤ e.code && e.code ≤ 144

end Opcode

end CellMachine
