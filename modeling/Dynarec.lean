import Dynarec.Aarch64.Assembler
import Dynarec.Aarch64.Constant
import Dynarec.Aarch64.Host
import Dynarec.Aarch64.Instr
import Dynarec.Aarch64.Lower
import Dynarec.Aarch64.Mask
import Dynarec.AddressMap
import Dynarec.Alu
import Dynarec.Amd64.Assembler
import Dynarec.Amd64.Encoding
import Dynarec.Amd64.Host
import Dynarec.Amd64.Instr
import Dynarec.Amd64.Lower
import Dynarec.Amd64.Process
import Dynarec.Bits
import Dynarec.Block
import Dynarec.Cache
import Dynarec.Cache.Run
import Dynarec.Cache.Translator
import Dynarec.Catalog
import Dynarec.Checks
import Dynarec.Checks.Directive
import Dynarec.Checks.Failure
import Dynarec.Checks.Match
import Dynarec.CodeBuffer
import Dynarec.Codegen
import Dynarec.Codegen.Compiled
import Dynarec.Fault
import Dynarec.Guest.Access
import Dynarec.Guest.Helper
import Dynarec.Guest.Layout
import Dynarec.Guest.Memory
import Dynarec.Guest.Run
import Dynarec.Guest.State
import Dynarec.Guest.Step
import Dynarec.Inst
import Dynarec.Listing.Cursor
import Dynarec.Listing.Printer
import Dynarec.Listing.Reader
import Dynarec.Liveness
import Dynarec.Main
import Dynarec.ObjectFile
import Dynarec.ObjectFile.NameTable
import Dynarec.Opcode
import Dynarec.Opcode.Native
import Dynarec.Opcode.Signature
import Dynarec.Optimize.ConstantPropagation
import Dynarec.Optimize.DeadWrites
import Dynarec.Optimize.FloatMoves
import Dynarec.Optimize.NarrowLoads
import Dynarec.Optimize.Pipeline
import Dynarec.Optimize.StoreReload
import Dynarec.Optimize.TwoOperand
import Dynarec.Padding
import Dynarec.Platform
import Dynarec.Proofs.Aarch64.Branches
import Dynarec.Proofs.Aarch64.Cells
import Dynarec.Proofs.Aarch64.Constants
import Dynarec.Proofs.Aarch64.FirstRun
import Dynarec.Proofs.Aarch64.Machine
import Dynarec.Proofs.Aarch64.Masks
import Dynarec.Proofs.Aarch64.Operands
import Dynarec.Proofs.Aarch64.Resolution
import Dynarec.Proofs.Aarch64.Runs
import Dynarec.Proofs.Cache.Compilation
import Dynarec.Proofs.Cache.Consistency
import Dynarec.Proofs.Cache.LongBlocks
import Dynarec.Proofs.Cache.OptimizedRuns
import Dynarec.Proofs.Checks.Matching
import Dynarec.Proofs.Codegen.Aarch64Steps
import Dynarec.Proofs.Codegen.Amd64Steps
import Dynarec.Proofs.Codegen.BranchRange
import Dynarec.Proofs.Codegen.BranchTargets
import Dynarec.Proofs.Codegen.CallStorage
import Dynarec.Proofs.Codegen.CountDowns
import Dynarec.Proofs.Codegen.Exhaustion
import Dynarec.Proofs.Codegen.Fields
import Dynarec.Proofs.Codegen.Items
import Dynarec.Proofs.Codegen.Laying
import Dynarec.Proofs.Codegen.Sessions
import Dynarec.Proofs.Codegen.Totality
import Dynarec.Proofs.Guest.AccessOrder
import Dynarec.Proofs.Guest.Accesses
import Dynarec.Proofs.Guest.Bytes
import Dynarec.Proofs.Guest.Code
import Dynarec.Proofs.Guest.Footprint
import Dynarec.Proofs.Guest.HelperCalls
import Dynarec.Proofs.Guest.NextUse
import Dynarec.Proofs.Guest.Observed
import Dynarec.Proofs.Guest.Stores
import Dynarec.Proofs.Guest.Unaligned
import Dynarec.Proofs.Listing.Copies
import Dynarec.Proofs.Listing.LineByLine
import Dynarec.Proofs.Listing.LineEffects
import Dynarec.Proofs.Listing.RoundTrip
import Dynarec.Proofs.Listing.Tokens
import Dynarec.Proofs.Optimize.CanonicalPools
import Dynarec.Proofs.Optimize.ConstantDemand
import Dynarec.Proofs.Optimize.ConstantPropagation
import Dynarec.Proofs.Optimize.DeadWrites
import Dynarec.Proofs.Optimize.Echoes
import Dynarec.Proofs.Optimize.Evaluation
import Dynarec.Proofs.Optimize.ExactRewrites
import Dynarec.Proofs.Optimize.ExchangedOperands
import Dynarec.Proofs.Optimize.Folding
import Dynarec.Proofs.Optimize.FoldingGrowth
import Dynarec.Proofs.Optimize.FoldingSteps
import Dynarec.Proofs.Optimize.LocalRewrites
import Dynarec.Proofs.Optimize.NarrowLoads
import Dynarec.Proofs.Optimize.Pipelines
import Dynarec.Proofs.Optimize.Promises
import Dynarec.Proofs.Optimize.Refinement
import Dynarec.Proofs.Optimize.RepeatedFolding
import Dynarec.Proofs.Optimize.RepeatedNarrowing
import Dynarec.Proofs.Optimize.RoomForConstants
import Dynarec.Proofs.Optimize.SettledWrites
import Dynarec.Proofs.Registers.CallSession
import Dynarec.Proofs.Registers.Calls
import Dynarec.Proofs.Registers.Coherence
import Dynarec.Proofs.Registers.Evict
import Dynarec.Proofs.Registers.Flush
import Dynarec.Proofs.Registers.Frames
import Dynarec.Proofs.Registers.Groups
import Dynarec.Proofs.Registers.Mapping
import Dynarec.Proofs.Registers.Operands
import Dynarec.Proofs.Registers.Operations
import Dynarec.Proofs.Registers.Outcomes
import Dynarec.Proofs.Registers.Places
import Dynarec.Proofs.Registers.Provisions
import Dynarec.Proofs.Registers.Readings
import Dynarec.Proofs.Registers.Session
import Dynarec.Proofs.Registers.Start
import Dynarec.Proofs.Registers.Storage
import Dynarec.Proofs.Registers.Supply
import Dynarec.Proofs.Registers.Tables
import Dynarec.Proofs.Single.Commutation
import Dynarec.Proofs.Single.Conversion
import Dynarec.Proofs.Single.Patterns
import Dynarec.Registers.Bank
import Dynarec.Registers.Consistency
import Dynarec.Registers.Engine
import Dynarec.Registers.Evict
import Dynarec.Registers.Flush
import Dynarec.Registers.Host
import Dynarec.Registers.Mapping
import Dynarec.Registers.Sketch
import Dynarec.Report
import Dynarec.Report.CommandLine
import Dynarec.Report.Destination
import Dynarec.Report.Lines
import Dynarec.Report.Options
import Dynarec.Settings
import Dynarec.Single.Arithmetic
import Dynarec.Single.Basic
import Dynarec.Single.Compare
import Dynarec.Single.Convert
import Dynarec.Single.Decimal
import Dynarec.Single.Rounding
import Dynarec.Slot
import Dynarec.Statistics
import Dynarec.System
import Dynarec.Target
import Dynarec.Text.Alphabetic
import Dynarec.Text.Blank
import Dynarec.Text.Digits
import Dynarec.Text.Hex
import Dynarec.Text.Hidden
import Dynarec.Text.Lines
import Dynarec.Text.Numeric
import Dynarec.Text.Quoted
import Dynarec.Text.Ranges
