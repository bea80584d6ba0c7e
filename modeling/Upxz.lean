import Upxz.Machine.Exec
import Upxz.Machine.BigEndian
import Upxz.Machine.ShortWrites
import Upxz.Machine.Loop
import Upxz.Machine.Trim
import Upxz.Machine.UnixPath
import Upxz.Machine.WindowsPath
import Upxz.Machine.WindowsPush
import Upxz.Machine.Utf8
import Upxz.Machine.Utf16
import Upxz.Machine.Decimal
import Upxz.Machine.CMemory
import Upxz.Machine.Program
import Upxz.Machine.Disk
import Upxz.Machine.Calls
import Upxz.Machine.Parties
import Upxz.Machine.Heap
import Upxz.Format.Header
import Upxz.Format.Classify
import Upxz.Compress
import Upxz.Format.Layout
import Upxz.Format.Location
import Upxz.Stub.Parse
import Upxz.Stub.Run
import Upxz.Stub.Process
import Upxz.Loader.Parse
import Upxz.Loader.Bounds
import Upxz.Loader.Decompress
import Upxz.Loader.TempPath
import Upxz.Loader.TempFile
import Upxz.Loader.ExecVector
import Upxz.Loader.Process
import Upxz.Loader.Darwin
import Upxz.Loader.Contract
import Upxz.Loader.Discipline
import Upxz.Loader.Runs
import Upxz.Cli.Names
import Upxz.Cli.Commands
import Upxz.Cli.Vault
import Upxz.Cli.Refusals
import Upxz.Cli.Faults
import Upxz.Cli.Readers
import Upxz.Cli.RoundTrip
import Upxz.Winstub.TempName
import Upxz.Winstub.Run
import Upxz.Cli.SelfExtract
import Upxz.Bin.TarPath
import Upxz.Bin.Run
import Upxz.Bin.ExecMemfd
import Upxz.Bin.ExecTemp
