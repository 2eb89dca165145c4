import Outlining.Document.Reading
import Outlining.Options

namespace Outlining.Document

def readBackend : Decoder Backend := readChoice Backend.ofName?

/-- Reads options; those left out are taken from `standard`. -/
def readOptions (standard : Options) : Decoder Options := fun setting node => do
  let record ← Record.ofNode? setting 12 node
  let enabled ← record.optional setting 0 ["enabled"] standard.enabled readBool
  let minSize ← record.optional setting 1 ["min_size", "minWindowSize"] standard.minSize readSize
  let maxSize ← record.optional setting 2 ["max_size", "maxWindowSize"] standard.maxSize readSize
  let methodThreshold ← record.optional setting 3 ["method_threshold", "methodFrequencyThreshold"]
    standard.methodThreshold readSize
  let siteThreshold ← record.optional setting 4 ["site_threshold", "siteFrequencyThreshold"]
    standard.siteThreshold readSize
  let maxArgumentRegisters ← record.optional setting 5
    ["max_argument_registers", "maxArgumentRegisterBudget"] standard.maxArgumentRegisters readSize
  let allowInterfaceArrays ← record.optional setting 6
    ["allow_interface_array_arguments", "allowInterfaceArrayArguments"]
    standard.allowInterfaceArrays readBool
  let backend ← record.optional setting 7 ["backend"] standard.backend readBackend
  let holderType ← record.optional setting 8 ["holder_type"] standard.holderType
    fun setting node => (readText setting node).map Bytecode.Descriptor.mk
  let nameStem ← record.optional setting 9 ["method_prefix"] standard.nameStem readText
  let threads ← record.optional setting 10 ["threads"] standard.threads readSize
  let verify ← record.optional setting 11 ["verify"] standard.verify readBool
  return {
    enabled := enabled
    minSize := minSize
    maxSize := maxSize
    methodThreshold := methodThreshold
    siteThreshold := siteThreshold
    maxArgumentRegisters := maxArgumentRegisters
    allowInterfaceArrays := allowInterfaceArrays
    backend := backend
    holderType := holderType
    nameStem := nameStem
    threads := threads
    verify := verify }

/-- Reads the options in the table `outline` of a document, which may be left out. -/
def readOptionsFile (standard : Options) : Decoder Options := fun setting node => do
  let record ← Record.ofNode? setting 1 node
  record.optional setting 0 ["outline"] standard (readOptions standard)

end Outlining.Document
