import ContractLex.Boundary
import ContractLex.Command.Run
import ContractLex.Diagnostic.Record
import ContractLex.Main
import ContractLex.Proofs.Answer
import ContractLex.Proofs.Bounds
import ContractLex.Proofs.Buffer
import ContractLex.Proofs.Cap
import ContractLex.Proofs.Coverage
import ContractLex.Proofs.Drivers
import ContractLex.Proofs.Failures
import ContractLex.Proofs.Filler
import ContractLex.Proofs.Hearing
import ContractLex.Proofs.Identifier
import ContractLex.Proofs.Independence
import ContractLex.Proofs.Latest
import ContractLex.Proofs.Ledger
import ContractLex.Proofs.LineByLine
import ContractLex.Proofs.Munch
import ContractLex.Proofs.Number
import ContractLex.Proofs.Operator
import ContractLex.Proofs.PayloadFlag
import ContractLex.Proofs.PlainDump
import ContractLex.Proofs.Quoted
import ContractLex.Proofs.ReadOn
import ContractLex.Proofs.RecordText
import ContractLex.Proofs.Resync
import ContractLex.Proofs.Shown
import ContractLex.Proofs.Slice
import ContractLex.Proofs.Spelled
import ContractLex.Proofs.Tracked
import ContractLex.Proofs.Unlined
import ContractLex.Proofs.Unmixed
import ContractLex.Proofs.Walk
import ContractLex.Token.Record
